import Mathlib.Data.Finset.Card
import Replay.Proofs.Buffer.Promises
import Replay.Proofs.Sources.Custody

/-!
An invariant of one feed under every store operation. It suffices that asking its own buffer preserves
the invariant: a read of any other feed that gets to this one does so by asking its buffer, and the
depth of such reads is bounded because each takes another buffer out.
-/
namespace Replay

open Store

variable {α β : Type} {feed other : Nat}

namespace Feeds

variable {s s' : Feeds α} {b : Buffer α} {depth : Nat}

def readable (s : Feeds α) : Finset Nat :=
  (Finset.range s.cells.size).filter fun feed => (s.buffer? feed).isSome

theorem lt_size_of_buffer? (h : s.buffer? feed = some b) : feed < s.cells.size := by
  obtain ⟨c, hc, -⟩ := Option.bind_eq_some_iff.mp h
  exact (Array.getElem?_eq_some_iff.mp hc).1

theorem mem_readable : feed ∈ s.readable ↔ (s.buffer? feed).isSome := by
  rw [readable, Finset.mem_filter, Finset.mem_range, and_iff_right_iff_imp]
  intro h
  obtain ⟨b, hb⟩ := Option.isSome_iff_exists.mp h
  exact lt_size_of_buffer? hb

theorem card_readable_le (s : Feeds α) : s.readable.card ≤ s.cells.size :=
  (Finset.card_filter_le ..).trans (Finset.card_range _).le

theorem card_readable_lt (hlt : feed < s.cells.size) (h : s.buffer? feed = none) :
    s.readable.card < s.cells.size := by
  rw [← Finset.card_range s.cells.size]
  refine Finset.card_lt_card (Finset.filter_ssubset.mpr ⟨feed, Finset.mem_range.mpr hlt, ?_⟩)
  simp [h]

theorem card_takeOut (h : s.buffer? feed = some b) :
    (s.setBuffer feed none).readable.card < s.readable.card := by
  refine Finset.card_lt_card ((Finset.ssubset_iff_of_subset fun other hother => ?_).mpr ⟨feed, ?_, ?_⟩)
  · rw [mem_readable] at hother ⊢
    by_cases hne : feed = other
    · subst hne
      rw [buffer?_setBuffer (lt_size_of_buffer? h)] at hother
      cases hother
    · rwa [buffer?_setBuffer_of_ne hne] at hother
  · rw [mem_readable, h]
    rfl
  · rw [mem_readable, buffer?_setBuffer (lt_size_of_buffer? h)]
    exact Bool.false_ne_true

theorem readable_eq_terms : (s.buffer? feed).isSome = ((s.terms feed).bind Terms.buffer).isSome := by
  rw [buffer?, terms]
  cases s.cells[feed]? with
  | none => rfl
  | some c =>
    rw [Option.bind_some, Option.map_some, Option.bind_some, Option.isSome_map]

theorem ReadsTo.readable (h : s.ReadsTo s') : s'.readable = s.readable := by
  ext other
  rw [mem_readable, mem_readable, readable_eq_terms, h.terms, ← readable_eq_terms]

/-- Preserved when the buffer of the feed is asked, at any depth. -/
structure AskInvariant (feed : Nat) (P : Feeds α → Prop) : Prop where
  hasNext : ∀ {s} depth offset, P s →
    P (s.onBuffer feed (Buffer.hasNext (tap (pull (depth + 1)) feed) offset)).2
  bucketFor : ∀ {s} depth offset, P s →
    P (s.onBuffer feed (Buffer.bucketFor (tap (pull (depth + 1)) feed) offset)).2

/-- Besides, preserved by log entries and by changes of other feeds. -/
structure AskOnlyInvariant (feed : Nat) (P : Feeds α → Prop) : Prop extends AskInvariant feed P where
  note : ∀ {s} e, P s → P (s.note e)
  apart : ∀ {s other}, other ≠ feed → ∀ f, P s → P (s.modify other f)

theorem agrees_draw (feed n : Nat) :
    (tap (α := α) draw feed).Agrees (tap (pull n) feed) fun s s' => s = s' ∧ s.cells.size = n where
  pull := by
    rintro s _ ⟨rfl, rfl⟩
    exact ⟨rfl, rfl, sizePreserving_draw feed s⟩
  note := by
    rintro s _ e ⟨rfl, h⟩
    exact ⟨rfl, h⟩

theorem onBuffer_hasNext (s : Feeds α) (feed offset : Nat) :
    s.onBuffer feed (Buffer.hasNext (tap draw feed) offset) =
      s.onBuffer feed (Buffer.hasNext (tap (pull s.cells.size) feed) offset) := by
  unfold onBuffer
  split
  · rfl
  · obtain ⟨r, b, s₁, _, hr, hr', rfl, -⟩ := (Buffer.hasNext_beside (agrees_draw feed s.cells.size)
      (s := s.setBuffer feed none) offset ⟨rfl, size_setBuffer ..⟩).split₂
    rw [hr, hr']

theorem onBuffer_bucketFor (s : Feeds α) (feed offset : Nat) :
    s.onBuffer feed (Buffer.bucketFor (tap draw feed) offset) =
      s.onBuffer feed (Buffer.bucketFor (tap (pull s.cells.size) feed) offset) := by
  unfold onBuffer
  split
  · rfl
  · obtain ⟨r, b, s₁, _, hr, hr', rfl, -⟩ := (Buffer.bucketFor_beside (agrees_draw feed s.cells.size)
      (s := s.setBuffer feed none) offset ⟨rfl, size_setBuffer ..⟩).split₂
    rw [hr, hr']

end Feeds

namespace Cursor

open Feeds

variable {s : Feeds α} {depth : Nat}

theorem hasNext_eq (c : Cursor) (s : Feeds α) : c.hasNext s = c.hasNextBy (pull s.cells.size) s := by
  unfold hasNext
  induction c with
  | plain feed provider head =>
    unfold hasNextBy onBuffer
    split
    · rfl
    · obtain ⟨r, b, s₁, _, hr, hr', rfl, -⟩ := (head.hasNext_beside (agrees_draw feed s.cells.size)
        (s := s.setBuffer feed none) ⟨rfl, size_setBuffer ..⟩).split₂
      rw [hr, hr']
  | managed janitor released inner ih => rw [hasNextBy, hasNextBy, ih]
  | watched slot act inner ih => exact ih

theorem next_eq (c : Cursor) (s : Feeds α) : c.next s = c.nextBy (pull s.cells.size) s := by
  unfold next
  induction c with
  | plain feed provider head =>
    unfold nextBy
    split
    · rfl
    · obtain ⟨r, d, b, s₁, _, hr, hr', rfl, -⟩ := (head.next_beside (agrees_draw feed s.cells.size)
        (s := s.setBuffer feed none) ⟨rfl, size_setBuffer ..⟩).split₃
      rw [hr, hr']
  | managed janitor released inner ih => rw [nextBy, nextBy, ih]
  | watched slot act inner ih => rw [nextBy, nextBy, ih]

end Cursor

theorem Head.next_askInvariant {σ : Type} (tap : Tap α σ) (h : Head) (b : Buffer α) (s : σ) :
    (h.next tap b s).2.2 = (b, s) ∨ (h.next tap b s).2.2 = (b.bucketFor tap h.position s).2 := by
  have hread : (h.readAt tap b s).2.2 = (b, s) ∨
      (h.readAt tap b s).2.2 = (b.bucketFor tap h.position s).2 := by
    unfold readAt lookUp
    split
    · exact .inl rfl
    · rcases b.bucketFor tap h.position s with ⟨_ | _ | _, b', s'⟩
      all_goals exact .inr rfl
  unfold next
  split
  · exact .inl rfl
  · split
    · exact .inl rfl
    · rcases hr : h.readAt tap b s with ⟨_ | _, h', b', s'⟩
      all_goals
        rw [hr] at hread
        exact hread

namespace Feeds.AskInvariant

variable {P : Feeds α → Prop} {s : Feeds α}

theorem hasNextOwn (hP : AskInvariant feed P) (depth : Nat) (head : Head) (h : P s) :
    P (s.onBuffer feed (head.hasNext (tap (pull (depth + 1)) feed))).2 := by
  cases hclosed : head.closed with
  | true =>
    cases hb : s.buffer? feed with
    | none =>
      rw [onBuffer, hb]
      exact h
    | some b =>
      have hidle : s.onBuffer feed (head.hasNext (tap (pull (depth + 1)) feed)) =
          (.raise .cursorClosed, s) :=
        Supply.onBuffer_idle hb fun t => by rw [Head.hasNext, if_pos hclosed]
      rw [hidle]
      exact h
  | false =>
    have haskInvariant : s.onBuffer feed (head.hasNext (tap (pull (depth + 1)) feed)) =
        s.onBuffer feed (Buffer.hasNext (tap (pull (depth + 1)) feed) head.position) := by
      unfold onBuffer
      simp only [Head.hasNext_eq hclosed]
    rw [haskInvariant]
    exact hP.hasNext depth head.position h

theorem nextOwn (hP : AskInvariant feed P) (depth : Nat) (provider : ProviderId) (head : Head) (h : P s) :
    P ((Cursor.plain feed provider head).nextBy (pull (depth + 1)) s).2.2 := by
  cases hb : s.buffer? feed with
  | none =>
    rw [Cursor.nextBy, hb]
    exact h
  | some b =>
    have hnext : ((Cursor.plain feed provider head).nextBy (pull (depth + 1)) s).2.2 =
        (head.next (tap (pull (depth + 1)) feed) b (s.setBuffer feed none)).2.2.2.setBuffer feed
          (some (head.next (tap (pull (depth + 1)) feed) b (s.setBuffer feed none)).2.2.1) := by
      rw [Cursor.nextBy, hb]
    rw [hnext]
    rcases head.next_askInvariant (tap (pull (depth + 1)) feed) b
      (s.setBuffer feed none) with haskInvariant | haskInvariant
    · rw [haskInvariant, setBuffer_setBuffer hb]
      exact h
    · rw [haskInvariant]
      have hbucket := hP.bucketFor depth head.position h
      rwa [onBuffer, hb] at hbucket

theorem hasNextBy (hP : AskInvariant feed P) (depth : Nat) {c : Cursor} (hc : c.feed = feed) (h : P s) :
    P (c.hasNextBy (pull (depth + 1)) s).2 := by
  induction c with
  | plain other provider head =>
    obtain rfl : other = feed := hc
    exact hP.hasNextOwn depth head h
  | managed janitor released inner ih =>
    unfold Cursor.hasNextBy
    split
    · exact h
    · exact ih hc
  | watched slot act inner ih => exact ih hc

theorem nextBy (hP : AskInvariant feed P) (depth : Nat) {c : Cursor} (hc : c.feed = feed) (h : P s) :
    P (c.nextBy (pull (depth + 1)) s).2.2 := by
  induction c with
  | plain other provider head =>
    obtain rfl : other = feed := hc
    exact hP.nextOwn depth provider head h
  | managed janitor released inner ih =>
    unfold Cursor.nextBy
    split
    · exact h
    · exact ih hc
  | watched slot act inner ih => exact ih hc

theorem own (hP : AskInvariant feed P) (hlt : feed < s.cells.size) (h : P s) :
    (∀ offset, P (s.onBuffer feed (Buffer.hasNext (tap Feeds.draw feed) offset)).2) ∧
      (∀ offset, P (s.onBuffer feed (Buffer.bucketFor (tap Feeds.draw feed) offset)).2) ∧
      ∀ c : Cursor, c.feed = feed → P (c.hasNext s).2 ∧ P (c.next s).2.2 := by
  obtain ⟨depth, hdepth⟩ : ∃ depth, s.cells.size = depth + 1 :=
    Nat.exists_eq_add_one.mpr ((Nat.zero_le _).trans_lt hlt)
  refine ⟨fun offset => ?_, fun offset => ?_, fun c hc => ⟨?_, ?_⟩⟩
  · rw [onBuffer_hasNext, hdepth]
    exact hP.hasNext depth offset h
  · rw [onBuffer_bucketFor, hdepth]
    exact hP.bucketFor depth offset h
  · rw [c.hasNext_eq, hdepth]
    exact hP.hasNextBy depth hc h
  · rw [c.next_eq, hdepth]
    exact hP.nextBy depth hc h

end Feeds.AskInvariant

namespace Feeds.AskOnlyInvariant

variable {P : Feeds α → Prop} {s : Feeds α} {depth : Nat}

theorem setBuffer (hP : AskOnlyInvariant feed P) (hne : other ≠ feed) (b : Option (Buffer α)) (h : P s) :
    P (s.setBuffer other b) := hP.apart hne _ h

/-- Preserved by a draw on any other feed, as long as `depth` buffers are left to be taken out. -/
def Draws (feed : Nat) (P : Feeds α → Prop) (depth : Nat) : Prop :=
  ∀ other ≠ feed, ∀ s : Feeds α, s.readable.card < depth → P s → P (pull depth other s).2

theorem preserves (hP : AskOnlyInvariant feed P) (hd : Draws feed P depth) (hne : other ≠ feed) :
    (tap (pull depth) other).Preserves fun s => s.readable.card < depth ∧ P s where
  pull {s} h :=
    have hsame := (endsNothing_pull depth other s).readable
    ⟨(congrArg Finset.card hsame).trans_lt h.1, hd other hne s h.1 h.2⟩
  note e h := ⟨h.1, hP.note e h.2⟩

theorem onBuffer (hP : AskOnlyInvariant feed P) (hd : Draws feed P depth) (hne : other ≠ feed)
    {f : Buffer α → Feeds α → Outcome StreamError β × Buffer α × Feeds α}
    (hf : ∀ I, (tap (pull depth) other).Preserves I → ∀ b s, I s → I (f b s).2.2)
    (hle : s.readable.card ≤ depth) (h : P s) : P (s.onBuffer other f).2 := by
  unfold Feeds.onBuffer
  split
  · exact h
  · rename_i b hb
    have hready := (card_takeOut hb).trans_le hle
    exact hP.setBuffer hne _ (hf _ (hP.preserves hd hne) b _ ⟨hready, hP.setBuffer hne none h⟩).2

theorem hasNextBy (hP : AskOnlyInvariant feed P) (hd : Draws feed P depth) (c : Cursor)
    (hle : s.readable.card ≤ depth) (h : P s) : P (c.hasNextBy (pull depth) s).2 := by
  induction c with
  | plain other provider head =>
    by_cases hne : other = feed
    · subst hne
      cases hb : s.buffer? other with
      | none =>
        rw [Cursor.hasNextBy, Feeds.onBuffer, hb]
        exact h
      | some b =>
        obtain ⟨less, rfl⟩ : ∃ less, depth = less + 1 :=
          Nat.exists_eq_add_one.mpr ((Nat.zero_le _).trans_lt ((card_takeOut hb).trans_le hle))
        exact hP.hasNextOwn less head h
    · exact hP.onBuffer hd hne (fun I hI b s => Head.hasNext_preserves hI head) hle h
  | managed janitor released inner ih =>
    unfold Cursor.hasNextBy
    split
    · exact h
    · exact ih
  | watched slot act inner ih => exact ih

theorem nextBy (hP : AskOnlyInvariant feed P) (hd : Draws feed P depth) (c : Cursor)
    (hle : s.readable.card ≤ depth) (h : P s) : P (c.nextBy (pull depth) s).2.2 := by
  induction c with
  | plain other provider head =>
    cases hb : s.buffer? other with
    | none =>
      rw [Cursor.nextBy, hb]
      exact h
    | some b =>
      have hready := (card_takeOut hb).trans_le hle
      by_cases hne : other = feed
      · subst hne
        obtain ⟨less, rfl⟩ : ∃ less, depth = less + 1 :=
          Nat.exists_eq_add_one.mpr ((Nat.zero_le _).trans_lt hready)
        exact hP.nextOwn less provider head h
      · rw [Cursor.nextBy, hb]
        exact hP.setBuffer hne _ (Head.next_preserves (hP.preserves hd hne) head
          ⟨hready, hP.setBuffer hne none h⟩).2
  | managed janitor released inner ih =>
    unfold Cursor.nextBy
    split
    · exact h
    · exact ih
  | watched slot act inner ih => exact ih

theorem stepBy (hP : AskOnlyInvariant feed P) (hd : Draws feed P depth) (c : Cursor)
    (hle : s.readable.card ≤ depth) (h : P s) : P (c.stepBy (pull depth) s).2.2 := by
  have hread := (c.readsTo_hasNextBy (endsNothing_pull depth) (s := s)).readable
  refine (c.stepBy_preserves (P := fun place => place.2.readable.card ≤ depth ∧ P place.2)
    ⟨hread ▸ hle, hP.hasNextBy hd c hle h⟩ fun s' hs' => ?_).2
  have hnext := (c.readsTo_nextBy (endsNothing_pull depth) (s := s')).1.readable
  exact ⟨hnext ▸ hs'.1, hP.nextBy hd c hs'.1 hs'.2⟩

theorem pullSource (hP : AskOnlyInvariant feed P) (hd : Draws feed P depth) (source : Source α)
    (hle : s.readable.card ≤ depth) (h : P s) : P (s.pullSource (pull depth) source).2.2.2 := by
  cases source with
  | iterator ahead =>
    cases ahead with
    | none => exact h
    | some it =>
      unfold Feeds.pullSource
      dsimp only
      rcases it.next with ⟨_ | _, it'⟩
      · exact h
      · exact h
  | script outcomes pulled hint closing => exact h
  | bytes source item => exact h
  | chain c => exact hP.stepBy hd c hle h

theorem draws (hP : AskOnlyInvariant feed P) (depth : Nat) : Draws feed P depth := by
  induction depth with
  | zero => exact fun _ _ _ _ h => h
  | succ depth ih =>
    intro other hne s hlt h
    unfold pull
    split
    · exact h
    · rename_i source _
      have hcount : s.ReadsTo (s.count other fun t => { t with pulls := t.pulls + 1 }) :=
        .count fun _ => rfl
      have hle : (s.count other fun t => { t with pulls := t.pulls + 1 }).readable.card ≤ depth :=
        hcount.readable ▸ Nat.le_of_lt_succ hlt
      exact hP.apart hne _ (hP.apart hne _ (hP.pullSource ih source hle (hP.apart hne _ h)))

theorem reads (hP : AskOnlyInvariant feed P) : Reads fun s s' => P s → P s' where
  hasNext c s h := by
    rw [c.hasNext_eq]
    exact hP.hasNextBy (hP.draws _) c s.card_readable_le h
  next c s h := by
    rw [c.next_eq]
    exact hP.nextBy (hP.draws _) c s.card_readable_le h

theorem draw (hP : AskOnlyInvariant feed P) (hne : other ≠ feed) (hb : s.buffer? other = none) (h : P s) :
    P (Feeds.draw other s).2 := by
  by_cases hlt : other < s.cells.size
  · exact hP.draws _ other hne s (card_readable_lt hlt hb) h
  · have hsource : s.source? other = none := by
      rw [source?, Array.getElem?_eq_none (Nat.le_of_not_lt hlt)]
      rfl
    rw [Feeds.draw]
    cases s.cells.size with
    | zero => exact h
    | succ n =>
      rw [pull, hsource]
      exact h

theorem steps (hP : AskOnlyInvariant feed P) : Steps fun s s' => P s → P s' where
  refl _ h := h
  trans h h' hs := h' (h hs)
  note e _ h := hP.note e h

theorem toAllowsOthers (hP : AskOnlyInvariant feed P) : AllowsOthers (fun s s' => P s → P s') feed :=
  fun _ hne f _ h => hP.apart hne f h

theorem asks (hP : AskOnlyInvariant feed P) (other offset : Nat) (h : P s) :
    P (s.onBuffer other (Buffer.hasNext (tap Feeds.draw other) offset)).2 ∧
      P (s.onBuffer other (Buffer.bucketFor (tap Feeds.draw other) offset)).2 := by
  by_cases hne : other = feed
  · subst hne
    cases hb : s.buffer? other with
    | none =>
      rw [Feeds.onBuffer, Feeds.onBuffer, hb]
      exact ⟨h, h⟩
    | some b =>
      obtain ⟨hhas, hbucket, -⟩ := hP.own (lt_size_of_buffer? hb) h
      exact ⟨hhas offset, hbucket offset⟩
  · rw [onBuffer_hasNext, onBuffer_bucketFor]
    exact ⟨hP.onBuffer (hP.draws _) hne (fun I hI b s => Buffer.hasNext_preserves hI offset)
        s.card_readable_le h,
      hP.onBuffer (hP.draws _) hne (fun I hI b s => Buffer.bucketFor_preserves hI offset)
        s.card_readable_le h⟩

theorem carries (hP : AskOnlyInvariant feed P)
    (hclose : ∀ left, (switches left : Switches α).Carries (fun s s' => P s → P s') →
      (Store.closeBuffer (switches left : Switches α) feed).Carries fun s s' => P s → P s') (left : Nat) :
    (switches left : Switches α).Carries fun s s' => P s → P s' := by
  refine .switches hP.steps.store (fun left hw other => ?_) left
  by_cases hne : other = feed
  · subst hne
    exact hclose left hw
  · exact hw.closeOther hP.toAllowsOthers hne

end Feeds.AskOnlyInvariant

namespace StoreOp

/-- The operation makes another buffer over the source, or pulls it directly. -/
def bypasses (m : Store α) : StoreOp α → Bool
  | addBuffer _ feed | manage _ feed _ | pull feed => (m.feeds.buffer? feed).isSome
  | _ => false

variable {P : Feeds α → Prop} {m : Store α} {d : StoreOp α}

theorem askOnlyInvariant_perform (hP : Feeds.AskOnlyInvariant feed P)
    (hadd : ∀ source s, P s → P (Feeds.add s source).2)
    (hw : ∀ left, (switches left : Switches α).Carries fun s s' => P s → P s')
    (hsource : Feeds.AllowsSource (fun s s' => P s → P s') feed ∨ d.LeavesSource m feed)
    (hb : (m.feeds.buffer? feed).isSome) (hd : d.bypasses m = false) (h : P m.feeds) :
    P (d.perform m).feeds := by
  have hR := hP.steps
  have hne : ∀ other, (m.feeds.buffer? other).isSome = false → other ≠ feed := by
    rintro other hnone rfl
    exact Bool.false_ne_true (hnone.symm.trans hb)
  have hallows : ∀ other ≠ feed, Feeds.AllowsSource (fun s s' => P s → P s') other :=
    fun other hne => hP.toAllowsOthers.allowsSource hne
  refine within_perform (R := fun s s' => P s → P s') (S := OnFeeds fun s s' => P s → P s') ?_ hw hP.reads h
  cases d with
  | complete manager context => exact hR.forgets
  | dispose manager => exact hR.forgets
  | addSource source => exact hadd source m.feeds
  | addBuffer config other =>
    exact ⟨hallows other (hne other hd), fun _ _ _ s hs => hP.setBuffer (hne other hd) _ hs⟩
  | addManager config => exact hR.addManager config m
  | manageProvider manager inner context => exact hR.manageProvider manager inner context m
  | manage manager other context =>
    rw [Allowed, perform, afterWith_eq]
    exact (hw m.endings).manage (hallows other (hne other hd))
      (fun _ _ _ _ s hs => hP.setBuffer (hne other hd) _ hs) manager context m
  | pull other =>
    have hnone := Option.isNone_iff_eq_none.mp (Option.isSome_eq_false_iff.mp hd)
    exact fun hs => hP.draw (hne other hd) hnone hs
  | hasNext other offset => exact fun hs => (hP.asks other offset hs).1
  | bucketFor other offset => exact fun hs => (hP.asks other offset hs).2
  | closeSource other =>
    by_cases hother : other = feed
    · subst hother
      exact hsource.resolve_right fun hleave => hleave rfl
    · exact hallows other hother
  | closeBuffer other =>
    rw [Allowed, perform, afterWith_eq]
    exact (hw (m.endings + 1)).closeBuffer other m
  | settle held =>
    intro other hout
    by_cases hother : other = feed
    · subst hother
      exact hsource.resolve_right fun hleave => hout hleave
    · exact hallows other hother
  | addStatistics | addManaged | addJanitor => exact hR.refl m.feeds
  | _ => trivial

end StoreOp
end Replay
