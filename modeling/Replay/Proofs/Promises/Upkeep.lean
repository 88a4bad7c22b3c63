import Replay.Proofs.Buffer.Promises
import Replay.Proofs.Performing

/-!
Every buffer of a reachable store is consistent: its buckets hold the items it was given. Reading and
closing preserve this, and nothing else touches a buffer.
-/
namespace Replay

open Store

variable {α β : Type} {feed other : Nat}

theorem Buffer.consistent_ofConfig {config : Config} {hint : Option Nat} {b : Buffer α}
    (h : Buffer.ofConfig config hint = .ok b) : b.Consistent := by
  rw [ofConfig] at h
  cases hvalid : config.validate with
  | error e =>
    rw [hvalid] at h
    cases h
  | ok =>
    rw [hvalid] at h
    cases h
    exact (Supply.sound_start (t := ⟨config, fun _ => .finished, hint, .ok ()⟩) hvalid).consistent

namespace Feeds

variable {s s' : Feeds α} {draw : Draw α}

/-- A buffer that is taken out for reading is not among those constrained. -/
def Consistent (s : Feeds α) : Prop := ∀ feed b, s.buffer? feed = some b → b.Consistent

def PreservesConsistent (s s' : Feeds α) : Prop := s.Consistent → s'.Consistent

theorem buffer?_modify {f : Feed α → Feed α} (hf : ∀ c, (f c).buffer = c.buffer) (other : Nat) :
    (s.modify feed f).buffer? other = s.buffer? other := by
  simp only [buffer?, modify, Array.getElem?_modify]
  split
  · cases s.cells[other]? with
    | none => rfl
    | some c => exact hf c
  · rfl

theorem Consistent.modify (h : s.Consistent) {f : Feed α → Feed α} (hf : ∀ c, (f c).buffer = c.buffer) :
    (s.modify feed f).Consistent := by
  intro other b hb
  rw [buffer?_modify hf] at hb
  exact h other b hb

theorem Consistent.setSource (h : s.Consistent) (source : Option (Source α)) :
    (s.setSource feed source).Consistent :=
  h.modify fun _ => rfl

theorem Consistent.count (h : s.Consistent) (f : Tally → Tally) : (s.count feed f).Consistent :=
  h.modify fun _ => rfl

theorem Consistent.setBuffer (h : s.Consistent) {buffer : Option (Buffer α)}
    (hbuffer : ∀ b, buffer = some b → b.Consistent) : (s.setBuffer feed buffer).Consistent := by
  intro other b hb
  by_cases hother : feed = other
  · subst hother
    by_cases hlt : feed < s.cells.size
    · rw [buffer?_setBuffer hlt] at hb
      exact hbuffer b hb
    · rw [buffer?, Array.getElem?_eq_none (by simpa using hlt)] at hb
      cases hb
  · rw [buffer?_setBuffer_of_ne hother] at hb
    exact h other b hb

theorem Consistent.takeOut (h : s.Consistent) : (s.setBuffer feed none).Consistent :=
  h.setBuffer fun b (hb : none = some b) => nomatch hb

theorem Consistent.onBuffer {f : Buffer α → Feeds α → Outcome StreamError β × Buffer α × Feeds α}
    (h : s.Consistent) (hbuffer : ∀ b s, b.Consistent → (f b s).2.1.Consistent)
    (hfeeds : ∀ b s, s.Consistent → (f b s).2.2.Consistent) : (s.onBuffer feed f).2.Consistent := by
  unfold Feeds.onBuffer
  split
  · exact h
  · rename_i b hb
    refine (hfeeds b _ h.takeOut).setBuffer ?_
    rintro b' ⟨⟩
    exact hbuffer b _ (h feed b hb)

/-- Drawing from one feed preserves the consistency of the others. -/
def PullsConsistent (draw : Draw α) : Prop := ∀ feed s, s.Consistent → (draw feed s).2.Consistent

theorem PullsConsistent.preserves (hd : PullsConsistent draw) (feed : Nat) :
    (Feeds.tap draw feed).Preserves Feeds.Consistent where
  pull := fun h => hd feed _ h
  note := fun _ h => h

end Feeds

namespace Head

variable {σ : Type} {tap : Tap α σ} {b : Buffer α}

theorem consistent_hasNext (h : Head) (hb : b.Consistent) (s : σ) : (h.hasNext tap b s).2.1.Consistent := by
  cases hclosed : h.closed with
  | true =>
    rw [hasNext, if_pos hclosed]
    exact hb
  | false =>
    rw [hasNext_eq hclosed]
    exact (hb.hasNext tap h.position s).consistent

theorem consistent_next (h : Head) (hb : b.Consistent) (s : σ) : (h.next tap b s).2.2.1.Consistent := by
  cases hclosed : h.closed with
  | true =>
    rw [next_of_closed hclosed]
    exact hb
  | false =>
    rw [next_eq hb hclosed Prod.mk.eta.symm]
    exact (hb.hasNext tap h.position s).consistent

end Head

namespace Cursor

open Feeds

variable {draw : Draw α} {s : Feeds α}

theorem consistent_hasNextBy (hd : PullsConsistent draw) (c : Cursor) (h : s.Consistent) :
    (c.hasNextBy draw s).2.Consistent := by
  induction c with
  | plain feed provider head =>
    exact h.onBuffer (fun b s hb => head.consistent_hasNext hb s)
      fun b s h => Head.hasNext_preserves (hd.preserves feed) head h
  | managed janitor released inner ih =>
    unfold hasNextBy
    split
    · exact h
    · exact ih
  | watched slot act inner ih => exact ih

theorem consistent_nextBy (hd : PullsConsistent draw) (c : Cursor) (h : s.Consistent) :
    (c.nextBy draw s).2.2.Consistent := by
  induction c with
  | plain feed provider head =>
    unfold nextBy
    split
    · exact h
    · rename_i b hb
      refine (Head.next_preserves (hd.preserves feed) head h.takeOut).setBuffer ?_
      rintro b' ⟨⟩
      exact head.consistent_next (h feed b hb) _
  | managed janitor released inner ih =>
    unfold nextBy
    split
    · exact h
    · exact ih
  | watched slot act inner ih => exact ih

theorem consistent_stepBy (hd : PullsConsistent draw) (c : Cursor) (h : s.Consistent) :
    (c.stepBy draw s).2.2.Consistent :=
  c.stepBy_preserves (P := fun place => place.2.Consistent) (c.consistent_hasNextBy hd h)
    fun _ h => c.consistent_nextBy hd h

end Cursor

namespace Feeds

theorem consistent_pullSource {draw : Draw α} (hd : PullsConsistent draw) {s : Feeds α} (h : s.Consistent)
    (source : Source α) : (s.pullSource draw source).2.2.2.Consistent := by
  cases source with
  | iterator ahead =>
    cases ahead with
    | none => exact h
    | some it =>
      unfold pullSource
      dsimp only
      rcases it.next with ⟨_ | _, it'⟩
      · exact h
      · exact h
  | script outcomes pulled hint closing => exact h
  | bytes source item => exact h
  | chain c => exact c.consistent_stepBy hd h

theorem pullsConsistent_pull (depth : Nat) : PullsConsistent (pull (α := α) depth) := by
  induction depth with
  | zero => exact fun _ _ h => h
  | succ depth ih =>
    intro feed s h
    unfold pull
    split
    · exact h
    · rename_i source _
      exact ((consistent_pullSource ih (h.count _) source).count _).setSource _

theorem pullsConsistent_draw : PullsConsistent (draw (α := α)) :=
  fun feed s h => pullsConsistent_pull s.cells.size feed s h

theorem steps_preservesConsistent : Steps (PreservesConsistent (α := α)) where
  refl _ h := h
  trans h h' hs := h' (h hs)
  note _ _ h := h

theorem reads_preservesConsistent : Reads (PreservesConsistent (α := α)) where
  hasNext c _ h := c.consistent_hasNextBy pullsConsistent_draw h
  next c _ h := c.consistent_nextBy pullsConsistent_draw h

theorem allowsSource_preservesConsistent (feed : Nat) : AllowsSource (PreservesConsistent (α := α)) feed where
  setSource source _ h := h.setSource source
  count f _ h := h.count f

theorem preservesConsistent_setBuffer {b : Buffer α} (hb : b.Consistent) (s : Feeds α) :
    s.PreservesConsistent (s.setBuffer feed (some b)) := by
  intro h
  refine h.setBuffer ?_
  rintro b' ⟨⟩
  exact hb

theorem preservesConsistent_ofConfig {config : Config} {hint : Option Nat} {b : Buffer α}
    (hb : Buffer.ofConfig config hint = .ok b) (s : Feeds α) :
    s.PreservesConsistent (s.setBuffer feed (some b)) :=
      preservesConsistent_setBuffer (Buffer.consistent_ofConfig hb) s

theorem preservesConsistent_add (source : Source α) (s : Feeds α) :
    s.PreservesConsistent (s.add source).2 := by
  intro h feed b hb
  simp only [add, buffer?, Array.getElem?_push] at hb
  split at hb
  · cases hb
  · exact h feed b hb

end Feeds

theorem carries_preservesConsistent (left : Nat) :
    (switches left : Switches α).Carries Feeds.PreservesConsistent := by
  refine .switches Feeds.steps_preservesConsistent.store (fun left hw feed => ?_) left
  refine hw.shutBuffer (Feeds.allowsSource_preservesConsistent feed) fun s b hb hopen h => ?_
  exact Feeds.preservesConsistent_setBuffer ((h feed b hb).close hopen) s h

namespace StoreOp

variable {m : Store α}

theorem preservesConsistent_perform (m : Store α) (d : StoreOp α) :
    m.feeds.PreservesConsistent (d.perform m).feeds := by
  have hR : Feeds.Steps (Feeds.PreservesConsistent (α := α)) := Feeds.steps_preservesConsistent
  refine within_perform (S := OnFeeds Feeds.PreservesConsistent) ?_ carries_preservesConsistent
    Feeds.reads_preservesConsistent
  cases d with
  | complete manager context => exact hR.forgets
  | dispose manager => exact hR.forgets
  | addSource source => exact Feeds.preservesConsistent_add source m.feeds
  | addBuffer config feed =>
    exact ⟨Feeds.allowsSource_preservesConsistent feed,
      fun _ _ hb s => Feeds.preservesConsistent_ofConfig hb s⟩
  | addManager config => exact hR.addManager config m
  | manageProvider manager inner context => exact hR.manageProvider manager inner context m
  | manage manager feed context =>
    rw [Allowed, perform, afterWith_eq]
    exact (carries_preservesConsistent m.endings).manage (Feeds.allowsSource_preservesConsistent feed)
      (fun _ _ _ hb s => Feeds.preservesConsistent_ofConfig hb s) manager context m
  | pull feed => exact Feeds.pullsConsistent_draw feed m.feeds
  | hasNext feed offset =>
    exact fun h => h.onBuffer (f := Buffer.hasNext (Feeds.tap Feeds.draw feed) offset)
      (fun _ s hb => (hb.hasNext _ offset s).consistent)
      fun _ _ h => Buffer.hasNext_preserves (Feeds.pullsConsistent_draw.preserves feed) offset h
  | bucketFor feed offset =>
    refine fun h => h.onBuffer (f := Buffer.bucketFor (Feeds.tap Feeds.draw feed) offset)
      (fun b s hb => ?_)
      fun _ _ h => Buffer.bucketFor_preserves (Feeds.pullsConsistent_draw.preserves feed) offset h
    rw [hb.bucketFor_eq Prod.mk.eta.symm]
    exact (hb.hasNext _ offset s).consistent
  | closeSource feed => exact Feeds.allowsSource_preservesConsistent feed
  | closeBuffer feed =>
    rw [Allowed, perform, afterWith_eq]
    exact (carries_preservesConsistent m.endings).shutBuffer (Feeds.allowsSource_preservesConsistent feed)
      (fun s b hb hopen h =>
      Feeds.preservesConsistent_setBuffer ((h feed b hb).close hopen) s h) m
  | settle held => exact fun feed _ => Feeds.allowsSource_preservesConsistent feed
  | addStatistics | addManaged | addJanitor => exact hR.refl m.feeds
  | _ => trivial

theorem consistent_run (ops : List (StoreOp α)) (h : m.feeds.Consistent) : (run m ops).feeds.Consistent := by
  induction ops generalizing m with
  | nil => exact h
  | cons d ds ih => exact ih (preservesConsistent_perform m d h)

theorem consistent_run_empty (ops : List (StoreOp α)) : (run {} ops).feeds.Consistent := by
  refine consistent_run ops fun feed b hb => ?_
  cases hb

end StoreOp

end Replay
