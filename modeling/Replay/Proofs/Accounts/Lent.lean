import Mathlib.Algebra.BigOperators.Pi
import Mathlib.Algebra.GroupWithZero.Nat
import Replay.Proofs.Buffer.Status
import Replay.Proofs.Feeds
import Replay.Proofs.Janitor.Advancing
import Replay.Proofs.Reading

/-!
The cursors that a janitor counts. A cursor counts with the janitor of each unreleased layer. A source
that was built on a cursor holds it for as long as the buffer is open: the cursor is lent to the feed.
Reading changes positions only, so it changes no count.
-/
namespace Replay

variable {α β σ : Type}

def Janitor.one (j : Janitor) (slot : Nat) : Nat := if slot = j.slot then 1 else 0

namespace Cursor

/-- The cursor with its position and remembered bucket reset. -/
def bare : Cursor → Cursor
  | plain feed provider _ => plain feed provider {}
  | managed janitor released inner => managed janitor released inner.bare
  | watched slot act inner => watched slot act inner.bare

/-- The number of unreleased layers, by janitor. -/
def counted : Cursor → Nat → Nat
  | plain .. => 0
  | managed janitor released inner => inner.counted + if released then 0 else janitor.one
  | watched _ _ inner => inner.counted

theorem counted_managed (janitor : Janitor) (inner : Cursor) :
    (managed janitor false inner).counted = inner.counted + janitor.one := rfl

theorem counted_released (janitor : Janitor) (inner : Cursor) :
    (managed janitor true inner).counted = inner.counted := add_zero _

theorem bare_bare (c : Cursor) : c.bare.bare = c.bare := by
  induction c with
  | plain feed provider head => rfl
  | managed janitor released inner ih => rw [bare, bare, ih]
  | watched slot act inner ih => rw [bare, bare, ih]

theorem counted_bare (c : Cursor) : c.bare.counted = c.counted := by
  induction c with
  | plain feed provider head => rfl
  | managed janitor released inner ih => rw [bare, counted, counted, ih]
  | watched slot act inner ih => rw [bare, counted, counted, ih]

theorem counted_eq_of_bare {c d : Cursor} (h : c.bare = d.bare) : c.counted = d.counted := by
  rw [← counted_bare c, h, counted_bare]

theorem bare_seek {position : Nat} {c d : Cursor} (h : c.seek position = .ok d) :
    d.bare = c.bare := by
  induction c generalizing d with
  | plain feed provider head =>
    rw [seek] at h
    cases hs : head.seek position with
    | error e => simp [hs, Except.map] at h
    | ok head' =>
      rw [hs] at h
      cases h
      rfl
  | managed janitor released inner ih =>
    rw [seek] at h
    split at h
    · cases h
    · rename_i hlive
      cases hs : inner.seek position with
      | error e => simp [hs, Except.map] at h
      | ok inner' =>
        rw [hs] at h
        cases h
        rw [bare, bare, ih hs, Bool.eq_false_of_not_eq_true hlive]
  | watched slot act inner ih =>
    rw [seek] at h
    cases hs : inner.seek position with
    | error e => simp [hs, Except.map] at h
    | ok inner' =>
      rw [hs] at h
      cases h
      rw [bare, bare, ih hs]

end Cursor

namespace Feeds

def chained (s : Feeds α) (feed : Nat) : Option Cursor :=
  ((s.source? feed).bind Source.cursor?).map Cursor.bare

/-- The cursor that the source reads from, while the buffer is open. -/
def lent (s : Feeds α) (feed : Nat) : Option Cursor :=
  if s.isOpen feed then s.chained feed else none

def lentCounts (s : Feeds α) : Nat → Nat :=
  ∑ feed ∈ Finset.range s.cells.size, (s.lent feed).elim 0 Cursor.counted

/-- The same feeds are open, and their sources read from the same cursors up to position. -/
structure Alike (s s' : Feeds α) : Prop where
  size : s'.cells.size = s.cells.size
  isOpen : ∀ feed, s'.isOpen feed = s.isOpen feed
  chained : ∀ feed, s'.chained feed = s.chained feed

variable {s s' s'' : Feeds α} {feed : Nat}

namespace Alike

theorem refl (s : Feeds α) : s.Alike s := ⟨rfl, fun _ => rfl, fun _ => rfl⟩

theorem lent (h : s.Alike s') (feed : Nat) : s'.lent feed = s.lent feed := by
  rw [Feeds.lent, Feeds.lent, h.isOpen, h.chained]

theorem lentCounts (h : s.Alike s') : s'.lentCounts = s.lentCounts := by
  rw [Feeds.lentCounts, Feeds.lentCounts, h.size]
  exact Finset.sum_congr rfl fun feed _ => by rw [h.lent]

theorem noneOpened (h : s.Alike s') : s.NoneOpened s' := ⟨h.size, fun feed hopen => h.isOpen feed ▸ hopen⟩

end Alike

theorem map_modify {γ : Type} {f : Feed α → Feed α} {g : Feed α → γ}
    (hf : ∀ c, s.cells[feed]? = some c → g (f c) = g c) (other : Nat) :
    (s.modify feed f).cells[other]?.map g = s.cells[other]?.map g := by
  simp only [Feeds.modify, Array.getElem?_modify]
  split
  · rename_i hother
    subst hother
    cases hc : s.cells[feed]? with
    | none => rfl
    | some c => exact congrArg some (hf c hc)
  · rfl

theorem chained_eq (s : Feeds α) (feed : Nat) : s.chained feed =
    (s.cells[feed]?.map fun c => (c.source.bind Source.cursor?).map Cursor.bare).join := by
  rw [chained, source?]
  cases s.cells[feed]? with
  | none => rfl
  | some c => rfl

theorem isOpen_eq (s : Feeds α) (feed : Nat) :
    s.isOpen feed = (s.cells[feed]?.map fun c => c.buffer.any fun b => !b.closed).getD false := by
  rw [isOpen, buffer?]
  cases s.cells[feed]? with
  | none => rfl
  | some c => rfl

theorem chained_modify (f : Feed α → Feed α)
    (hf : ∀ c, s.cells[feed]? = some c → ((f c).source.bind Source.cursor?).map Cursor.bare =
      (c.source.bind Source.cursor?).map Cursor.bare) (other : Nat) :
    (s.modify feed f).chained other = s.chained other := by
  rw [chained_eq, chained_eq]
  exact congrArg Option.join (map_modify hf other)

theorem isOpen_modify (f : Feed α → Feed α) (hf : ∀ c, (f c).buffer = c.buffer) (other : Nat) :
    (s.modify feed f).isOpen other = s.isOpen other := by
  rw [isOpen_eq, isOpen_eq]
  exact congrArg (Option.getD · false) (map_modify (fun c _ => by rw [hf]) other)

theorem Alike.count (f : Tally → Tally) : s.Alike (s.count feed f) where
  size := size_modify ..
  isOpen := isOpen_modify _ fun _ => rfl
  chained := chained_modify _ fun _ _ => rfl

theorem chained_setBuffer (b : Option (Buffer α)) (other : Nat) :
    (s.setBuffer feed b).chained other = s.chained other :=
  chained_modify (fun c => { c with buffer := b }) (fun _ _ => rfl) other

/-- What reading does not change: whether the source is there, how often it was closed, and of the
buffer the closed flag and the ownership. -/
structure Terms where
  sourced : Bool
  closes : Nat
  buffer : Option (Bool × Ownership)

def terms (s : Feeds α) (feed : Nat) : Option Terms :=
  s.cells[feed]?.map fun c => ⟨c.source.isSome, c.tally.closes, c.buffer.map Buffer.status⟩

theorem isOpen_eq_terms (s : Feeds α) (feed : Nat) :
    s.isOpen feed = ((s.terms feed).bind Terms.buffer).any fun status => !status.1 := by
  rw [isOpen, buffer?, terms]
  cases s.cells[feed]? with
  | none => rfl
  | some c =>
    rw [Option.bind_some, Option.map_some, Option.bind_some, Option.any_map]
    rfl

theorem sourced_eq (s : Feeds α) (feed : Nat) :
    (s.source? feed).isSome = (s.terms feed).any Terms.sourced := by
  rw [source?, terms]
  cases s.cells[feed]? with
  | none => rfl
  | some c => rfl

theorem terms_setBuffer (b : Option (Buffer α)) (other : Nat) :
    (s.setBuffer feed b).terms other =
      if feed = other then
        (s.terms other).map fun t => { t with buffer := b.map Buffer.status }
      else s.terms other := by
  simp only [terms, setBuffer, Feeds.modify, Array.getElem?_modify]
  split
  · cases s.cells[other]? with
    | none => rfl
    | some c => rfl
  · rfl

structure ReadsTo (s s' : Feeds α) : Prop where
  size : s'.cells.size = s.cells.size
  terms : ∀ feed, s'.terms feed = s.terms feed
  chained : ∀ feed, s'.chained feed = s.chained feed

namespace ReadsTo

theorem refl (s : Feeds α) : s.ReadsTo s := ⟨rfl, fun _ => rfl, fun _ => rfl⟩

theorem trans (h : s.ReadsTo s') (h' : s'.ReadsTo s'') : s.ReadsTo s'' :=
  ⟨h'.size.trans h.size, fun feed => (h'.terms feed).trans (h.terms feed),
    fun feed => (h'.chained feed).trans (h.chained feed)⟩

theorem alike (h : s.ReadsTo s') : s.Alike s' where
  size := h.size
  isOpen feed := by rw [isOpen_eq_terms, h.terms, isOpen_eq_terms]
  chained := h.chained

theorem count {f : Tally → Tally} (hf : ∀ t, (f t).closes = t.closes) :
    s.ReadsTo (s.count feed f) where
  size := size_modify ..
  terms other := map_modify (fun _ _ => by rw [hf]) other
  chained := (Alike.count f).chained

theorem setSource {source : Source α} (hsource : (s.source? feed).isSome)
    (h : s.chained feed = source.cursor?.map Cursor.bare) :
    s.ReadsTo (s.setSource feed (some source)) where
  size := size_modify ..
  terms other := by
    refine map_modify (fun c hc => ?_) other
    rw [source?_eq hc] at hsource
    rw [hsource]
    rfl
  chained other := by
    refine chained_modify _ (fun c hc => ?_) other
    rw [Feeds.chained, source?_eq hc] at h
    exact h.symm

theorem putBack {b b' : Buffer α} (hb : s.buffer? feed = some b)
    (h : (s.setBuffer feed none).ReadsTo s') (hstatus : b'.status = b.status) :
    s.ReadsTo (s'.setBuffer feed (some b')) where
  size := (size_setBuffer ..).trans (h.size.trans (size_setBuffer ..))
  terms other := by
    rw [terms_setBuffer, h.terms, terms_setBuffer]
    split
    · rename_i hother
      subst hother
      obtain ⟨c, hc, hcb⟩ := Option.bind_eq_some_iff.mp hb
      simp only [Feeds.terms, hc, hcb, Option.map_some, hstatus]
    · rfl
  chained other := by rw [chained_setBuffer, h.chained, chained_setBuffer]

end ReadsTo

theorem isOpen_setSource (source : Option (Source α)) (other : Nat) :
    (s.setSource feed source).isOpen other = s.isOpen other :=
  isOpen_modify (fun c => { c with source }) (fun _ => rfl) other

theorem chained_setSource (h : feed < s.cells.size) (source : Option (Source α)) :
    (s.setSource feed source).chained feed = (source.bind Source.cursor?).map Cursor.bare := by
  simp [Feeds.chained, source?, setSource, Feeds.modify, Array.getElem_modify, h]

theorem lent_setSource (h : s.isOpen feed = false) (source : Option (Source α)) (other : Nat) :
    (s.setSource feed source).lent other = s.lent other := by
  rw [Feeds.lent, Feeds.lent, isOpen_setSource]
  by_cases hother : feed = other
  · rw [← hother, h]
    rfl
  · have hsame : (s.setSource feed source).chained other = s.chained other := by
      simp [Feeds.chained, source?, setSource, Feeds.modify, Array.getElem?_modify, hother]
    rw [hsame]

def chainedCounts (s : Feeds α) (feed : Nat) : Nat → Nat := (s.chained feed).elim 0 Cursor.counted

theorem lent_shut {b : Buffer α} (hb : b.closed) (other : Nat) :
    (s.setBuffer feed (some b)).lent other = if feed = other then none else s.lent other := by
  by_cases hother : feed = other
  · subst hother
    have hshut : (s.setBuffer feed (some b)).isOpen feed = false := by
      by_cases hlt : feed < s.cells.size
      · rw [Feeds.isOpen, buffer?_setBuffer hlt, Option.any_some, hb]
        rfl
      · rw [Feeds.isOpen, buffer?, Array.getElem?_eq_none (by simpa using hlt)]
        rfl
    rw [Feeds.lent, hshut, if_pos rfl]
    rfl
  · rw [if_neg hother, Feeds.lent, chained_setBuffer, Feeds.isOpen, buffer?_setBuffer_of_ne hother,
      Feeds.lent, Feeds.isOpen]

theorem lentCounts_shut {b : Buffer α} (hopen : s.isOpen feed) (hb : b.closed) :
    s.lentCounts = (s.setBuffer feed (some b)).lentCounts + s.chainedCounts feed := by
  have hmem : feed ∈ Finset.range s.cells.size := Finset.mem_range.mpr (lt_of_isOpen hopen)
  rw [lentCounts, lentCounts, size_setBuffer, ← Finset.sum_erase_add _ _ hmem,
    ← Finset.sum_erase_add (Finset.range s.cells.size) _ hmem, lent_shut hb, if_pos rfl,
    Option.elim_none, add_zero, lent, if_pos hopen, chainedCounts]
  congr 1
  refine Finset.sum_congr rfl fun other hother => ?_
  rw [lent_shut hb, if_neg (Finset.ne_of_mem_erase hother).symm]

theorem lent_open {b : Buffer α} (hlt : feed < s.cells.size) (hb : b.closed = false) (other : Nat) :
    (s.setBuffer feed (some b)).lent other =
      if feed = other then s.chained feed else s.lent other := by
  by_cases hother : feed = other
  · subst hother
    rw [if_pos rfl, Feeds.lent, Feeds.isOpen, buffer?_setBuffer hlt, Option.any_some, hb,
      chained_setBuffer]
    rfl
  · rw [if_neg hother, Feeds.lent, chained_setBuffer, Feeds.isOpen, buffer?_setBuffer_of_ne hother,
      Feeds.lent, Feeds.isOpen]

theorem lentCounts_open {b : Buffer α} (hlt : feed < s.cells.size) (hshut : s.isOpen feed = false)
    (hb : b.closed = false) :
    (s.setBuffer feed (some b)).lentCounts = s.lentCounts + s.chainedCounts feed := by
  have hmem : feed ∈ Finset.range s.cells.size := Finset.mem_range.mpr hlt
  have hnone : s.lent feed = none := by
    rw [lent, hshut]
    rfl
  rw [lentCounts, lentCounts, size_setBuffer, ← Finset.sum_erase_add _ _ hmem,
    ← Finset.sum_erase_add (Finset.range s.cells.size) _ hmem, lent_open hlt hb, if_pos rfl, hnone,
    Option.elim_none, add_zero, chainedCounts]
  congr 1
  refine Finset.sum_congr rfl fun other hother => ?_
  rw [lent_open hlt hb, if_neg (Finset.ne_of_mem_erase hother).symm]

section add

variable {source : Source α}

theorem isOpen_add (feed : Nat) : (s.add source).2.isOpen feed = s.isOpen feed := by
  simp only [Feeds.isOpen, buffer?, add, Array.getElem?_push]
  split
  · rename_i hfeed
    rw [hfeed, Array.getElem?_eq_none le_rfl]
    rfl
  · rfl

theorem chained_add (feed : Nat) : (s.add source).2.chained feed =
    if feed = s.cells.size then source.cursor?.map Cursor.bare else s.chained feed := by
  simp only [Feeds.chained, source?, add, Array.getElem?_push]
  split
  · rfl
  · rfl

theorem shut_size : s.isOpen s.cells.size = false := by
  rw [← Bool.not_eq_true]
  exact fun hopen => lt_irrefl _ (lt_of_isOpen hopen)

theorem lent_add (feed : Nat) : (s.add source).2.lent feed = s.lent feed := by
  rw [lent, lent, isOpen_add, chained_add]
  split
  · rename_i hopen
    rw [if_neg (Nat.ne_of_lt (lt_of_isOpen hopen))]
  · rfl

theorem lentCounts_add : (s.add source).2.lentCounts = s.lentCounts := by
  have hnone : s.lent s.cells.size = none := by
    rw [lent, shut_size]
    rfl
  have hsize : (s.add source).2.cells.size = s.cells.size + 1 := Array.size_push ..
  rw [lentCounts, hsize, Finset.sum_range_succ, lent_add, hnone, Option.elim_none, add_zero, lentCounts]
  exact Finset.sum_congr rfl fun feed _ => by rw [lent_add]

end add

/-- A draw that closes and releases nothing. -/
def EndsNothing (draw : Draw α) : Prop := ∀ feed (s : Feeds α), s.ReadsTo (draw feed s).2

theorem EndsNothing.preserves {draw : Draw α} (hd : EndsNothing draw) (feed : Nat) (s : Feeds α) :
    (Feeds.tap draw feed).Preserves s.ReadsTo where
  pull := fun h => h.trans (hd feed _)
  note := fun _ h => ⟨h.size, h.terms, h.chained⟩

theorem readsTo_onBuffer {f : Buffer α → Feeds α → Outcome StreamError β × Buffer α × Feeds α}
    (hf : ∀ b s, s.ReadsTo (f b s).2.2 ∧ (f b s).2.1.status = b.status) :
    s.ReadsTo (s.onBuffer feed f).2 := by
  unfold onBuffer
  split
  · exact .refl s
  · rename_i b hb
    exact .putBack hb (hf b _).1 (hf b _).2

end Feeds

namespace Cursor

open Feeds

variable {draw : Draw α} {s : Feeds α}

theorem readsTo_hasNextBy (hd : EndsNothing draw) (c : Cursor) : s.ReadsTo (c.hasNextBy draw s).2 := by
  induction c with
  | plain feed provider head =>
    exact readsTo_onBuffer fun b s => ⟨Head.hasNext_preserves (hd.preserves feed s) head (.refl s),
      head.status_hasNext⟩
  | managed janitor released inner ih =>
    unfold hasNextBy
    split
    · exact .refl s
    · exact ih
  | watched slot act inner ih => exact ih

theorem readsTo_nextBy (hd : EndsNothing draw) (c : Cursor) :
    s.ReadsTo (c.nextBy draw s).2.2 ∧ (c.nextBy draw s).2.1.bare = c.bare := by
  induction c with
  | plain feed provider head =>
    unfold nextBy
    split
    · exact ⟨.refl s, rfl⟩
    · rename_i b hb
      exact ⟨.putBack hb (Head.next_preserves (hd.preserves feed _) head (.refl _))
        head.status_next, rfl⟩
  | managed janitor released inner ih =>
    unfold nextBy
    split
    · exact ⟨.refl s, rfl⟩
    · exact ⟨ih.1, congrArg (managed janitor released) ih.2⟩
  | watched slot act inner ih => exact ⟨ih.1, congrArg (watched slot act) ih.2⟩

theorem readsTo_stepBy (hd : EndsNothing draw) (c : Cursor) :
    s.ReadsTo (c.stepBy draw s).2.2 ∧ (c.stepBy draw s).2.1.bare = c.bare :=
  c.stepBy_preserves (P := fun place => s.ReadsTo place.2 ∧ place.1.bare = c.bare)
    ⟨c.readsTo_hasNextBy hd, rfl⟩ fun _ h => ⟨h.1.trans (c.readsTo_nextBy hd).1, (c.readsTo_nextBy hd).2⟩

end Cursor

namespace Feeds

theorem readsTo_pullSource {draw : Draw α} (hd : EndsNothing draw) (s : Feeds α) (source : Source α) :
    s.ReadsTo (s.pullSource draw source).2.2.2 ∧
      (s.pullSource draw source).2.1.cursor?.map Cursor.bare = source.cursor?.map Cursor.bare := by
  cases source with
  | iterator ahead =>
    cases ahead with
    | none => exact ⟨.refl s, rfl⟩
    | some it =>
      unfold pullSource
      dsimp only
      rcases it.next with ⟨_ | _, it'⟩
      · exact ⟨.refl s, rfl⟩
      · exact ⟨.refl s, rfl⟩
  | script outcomes pulled hint closing => exact ⟨.refl s, rfl⟩
  | bytes source item => exact ⟨.refl s, rfl⟩
  | chain c =>
    have hstep := c.readsTo_stepBy hd (s := s)
    exact ⟨hstep.1, congrArg some hstep.2⟩

theorem endsNothing_pull (depth : Nat) : EndsNothing (pull (α := α) depth) := by
  induction depth with
  | zero => exact fun _ s => .refl s
  | succ depth ih =>
    intro feed s
    unfold pull
    split
    · exact .refl s
    · rename_i source hsource
      have hcount : s.ReadsTo (s.count feed fun t => { t with pulls := t.pulls + 1 }) :=
        .count fun _ => rfl
      obtain ⟨hreads, hbare⟩ := readsTo_pullSource ih
        (s.count feed fun t => { t with pulls := t.pulls + 1 }) source
      rcases hp : (s.count feed fun t => { t with pulls := t.pulls + 1 }).pullSource (pull depth)
        source with ⟨r, source', reads, s'⟩
      rw [hp] at hreads hbare
      simp only [hp]
      have hchained : s.chained feed = source.cursor?.map Cursor.bare := by
        rw [Feeds.chained, hsource]
        rfl
      have hcounted : s.ReadsTo (s'.count feed fun t => { t with reads := t.reads + reads }) :=
        (hcount.trans hreads).trans (.count fun _ => rfl)
      have hsourced : ((s'.count feed fun t => { t with reads := t.reads + reads }).source? feed).isSome := by
        rw [sourced_eq, hcounted.terms, ← sourced_eq, hsource]
        rfl
      exact hcounted.trans
        (.setSource hsourced ((hcounted.chained feed).trans (hchained.trans hbare.symm)))

theorem endsNothing_draw : EndsNothing (draw (α := α)) := fun feed s => endsNothing_pull s.cells.size feed s

end Feeds

def Cursor.Stays (c : Cursor) (s : Feeds α) (place : Cursor × Feeds α) : Prop :=
  s.ReadsTo place.2 ∧ place.1.bare = c.bare

theorem Cursor.Stays.start (c : Cursor) (s : Feeds α) : c.Stays s (c, s) := ⟨.refl s, rfl⟩

theorem Cursor.preserves_reader (c : Cursor) (s : Feeds α) :
    (Cursor.reader (α := α)).Preserves (c.Stays s) :=
  fun place h =>
    have hstep := place.1.readsTo_stepBy Feeds.endsNothing_draw (s := place.2)
    ⟨h.1.trans hstep.1, hstep.2.trans h.2⟩

end Replay
