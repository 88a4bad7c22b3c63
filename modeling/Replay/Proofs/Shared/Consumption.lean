import Replay.Proofs.Shared.Faithful

/-!
The number of pulls. Each pull is accounted for by its outcome: a stored item, the one item that
overflowed, an error, or the end. A buffer pulls only for an offset it has not reached, and not beyond
it.
-/
namespace Replay

variable {α : Type}

namespace Pull

def isItem : Pull α → Bool
  | item _ => true
  | _ => false

def isFault : Pull α → Bool
  | failed _ | panicked _ => true
  | _ => false

def isEnd : Pull α → Bool
  | finished => true
  | _ => false

theorem toNat_kinds (o : Pull α) : o.isItem.toNat + o.isFault.toNat + o.isEnd.toNat = 1 := by
  cases o <;> rfl

theorem length_item? (o : Pull α) : o.item?.toList.length = o.isItem.toNat := by
  cases o <;> rfl

end Pull

/-- How many of the first `count` outcomes are of a kind. -/
def tallied (kind : Pull α → Bool) (outcomes : Nat → Pull α) (count : Nat) : Nat :=
  ((List.range count).map outcomes).countP kind

section tallied

variable {kind : Pull α → Bool} {outcomes : Nat → Pull α} {count more : Nat}

theorem tallied_succ :
    tallied kind outcomes (count + 1) = tallied kind outcomes count + (kind (outcomes count)).toNat := by
  unfold tallied
  rw [List.range_succ, List.map_append, List.countP_append]
  simp only [List.map_cons, List.map_nil, List.countP_singleton]
  cases kind (outcomes count) <;> rfl

theorem tallied_isItem : tallied Pull.isItem outcomes count = (delivered outcomes count).length := by
  induction count with
  | zero => rfl
  | succ count ih => rw [tallied_succ, ih, delivered_succ, List.length_append, Pull.length_item?]

theorem tallied_kinds : tallied Pull.isItem outcomes count + tallied Pull.isFault outcomes count +
    tallied Pull.isEnd outcomes count = count := by
  induction count with
  | zero => rfl
  | succ count ih =>
    have hkinds := (outcomes count).toNat_kinds
    simp only [tallied_succ]
    omega

theorem length_delivered_le (h : count ≤ more) :
    (delivered outcomes more).length ≤ (delivered outcomes count).length + (more - count) := by
  induction more, h using Nat.le_induction with
  | base => omega
  | succ more hle ih =>
    have hone := Bool.toNat_le (outcomes more).isItem
    rw [delivered_succ, List.length_append, Pull.length_item?]
    omega

end tallied

/-- Items pulled but not stored. -/
def Failure.rejected : Option Failure → Nat
  | some (.growthDisabled _) => 1
  | _ => 0

namespace Supply

variable {t : Supply α} {count : Nat}

/-- The pulls of the source against the fields of the buffer. -/
structure Consumed (t : Supply α) (pulls : Nat) (b : Buffer α) : Prop where
  items : tallied Pull.isItem t.outcomes pulls = b.consumed + Failure.rejected b.failure
  ends : tallied Pull.isEnd t.outcomes pulls = b.exhausted.toNat
  total : pulls =
    b.consumed + Failure.rejected b.failure + tallied Pull.isFault t.outcomes pulls + b.exhausted.toNat

theorem exhausted_succ (hvalid : t.config.validate = .ok ())
    (h : t.start.Pulls t.outcomes (count + 1)) :
    (t.buffer (count + 1)).exhausted = (t.outcomes count).isEnd := by
  obtain ⟨hf, hlive⟩ := h count (Nat.lt_succ_self _)
  have hsound := (Buffer.sound_after (sound_start hvalid) (h.mono (Nat.le_succ _))).2
  rw [buffer, Buffer.after]
  cases ho : t.outcomes count with
  | item a => exact (hsound.append hf a).2.2.1.trans hlive
  | finished => rfl
  | failed e => exact hlive
  | panicked p => exact hlive

theorem tallied_isEnd (hvalid : t.config.validate = .ok ()) (h : t.start.Pulls t.outcomes count) :
    tallied Pull.isEnd t.outcomes count = (t.buffer count).exhausted.toNat := by
  induction count with
  | zero => rfl
  | succ count ih =>
    have hlive : (t.buffer count).exhausted = false := (h count (Nat.lt_succ_self _)).2
    rw [tallied_succ, ih (h.mono (Nat.le_succ _)), hlive, exhausted_succ hvalid h, Bool.toNat_false,
      Nat.zero_add]

theorem length_items (hvalid : t.config.validate = .ok ()) (h : t.start.Pulls t.outcomes count) :
    (t.items count).length =
      (t.buffer count).consumed + Failure.rejected (t.buffer count).failure := by
  have hstanding := (sound_buffer hvalid h).standing
  unfold Buffer.Standing at hstanding
  split at hstanding
  · rename_i hf
    simpa [hf, Failure.rejected] using hstanding.1
  · rename_i hf
    simpa [hf, Failure.rejected] using hstanding.1
  · rename_i hf
    simpa [hf, Failure.rejected] using hstanding.1

theorem spent (hvalid : t.config.validate = .ok ()) {k : Progress}
    (h : t.start.Pulls t.outcomes k.count) : t.Consumed k.count (t.kept k) := by
  have hitems : tallied Pull.isItem t.outcomes k.count =
      (t.buffer k.count).consumed + Failure.rejected (t.buffer k.count).failure := by
    rw [tallied_isItem]
    exact length_items hvalid h
  have hends := tallied_isEnd hvalid h
  have htotal := @tallied_kinds _ t.outcomes k.count
  have hopen : t.Consumed k.count (t.buffer k.count) := ⟨hitems, hends, by omega⟩
  unfold kept
  split
  · exact ⟨hopen.items, hopen.ends, hopen.total⟩
  · exact hopen

end Supply

namespace Shared

/-- The offset an operation asks about. -/
def asked? (s : Shared α) : SharedOp → Option Nat
  | .hasNext offset | .bucketFor offset => some offset
  | .cursorOp i .hasNext | .cursorOp i .next => s.cursors[i]?.map Cursor.position
  | _ => none

end Shared

def Reply.Found : Reply α → Prop
  | .flag _ r => r = .ok true
  | .bucket _ r => ∃ held, r = .ok (some held)
  | .item _ r => ∃ a, r = .ok a
  | _ => False

/-- Operations that ask about no offset. -/
def SharedOp.Idle : SharedOp → Prop
  | .addCursor _ | .close | .cursorOp _ (.seek _) | .cursorOp _ .release | .cursorOp _ .close => True
  | _ => False

namespace Shared

/-- Upper bounds on the pulls of the next operation. -/
structure PullBounds (s : Shared α) (b : Buffer α) : Prop where
  known : ∀ u offset, s.asked? u = some offset → offset < b.consumed ∨ b.exhausted ∨ b.isClosed →
    (s.use u).2.pulls = s.pulls
  most : ∀ u offset, s.asked? u = some offset →
    (s.use u).2.pulls ≤ s.pulls + (offset + 1 - b.consumed)
  found : ∀ u offset, s.asked? u = some offset → (s.use u).1.Found →
    ∃ c, (s.use u).2.buffer? = some c ∧ c.consumed = max b.consumed (offset + 1)
  idle : ∀ u, u.Idle → (s.use u).2.pulls = s.pulls

end Shared

namespace Supply

variable {t : Supply α} {base : Array Event} {s : Shared α} {k l : Progress}

theorem not_pulls_of_done {count more : Nat}
    (h : (t.buffer count).exhausted ∨ (t.buffer count).failure.isSome) (hlt : count < more) :
    ¬t.start.Pulls t.outcomes more := by
  intro hp
  obtain ⟨hf, hlive⟩ : (t.buffer count).failure = none ∧ (t.buffer count).exhausted = false :=
    hp count hlt
  rcases h with h | h
  · rw [hlive] at h
    cases h
  · rw [hf] at h
    cases h

theorem count_eq_of_done (hvalid : t.config.validate = .ok ())
    (hdone : (t.kept k).exhausted ∨ (t.kept k).isClosed) (hle : k.count ≤ l.count)
    (hpulls : t.start.Pulls t.outcomes l.count) (hclosed : k.closed → l = k) :
    l.count = k.count := by
  cases hk : k.closed with
  | true => rw [hclosed hk]
  | false =>
    have hopened := (sound_buffer hvalid (hpulls.mono hle)).opened
    have hstopped : (t.buffer k.count).exhausted ∨ (t.buffer k.count).failure.isSome := by
      simpa [kept, hk, Buffer.isClosed, hopened] using hdone
    by_contra hne
    exact not_pulls_of_done hstopped (lt_of_le_of_ne hle (Ne.symm hne)) hpulls

/-- The cost of asking about one offset. -/
structure PullCost (t : Supply α) (k : Progress) (offset : Nat) (l : Progress) (found : Prop) : Prop where
  le : k.count ≤ l.count
  pulls : t.start.Pulls t.outcomes l.count
  most : l.count ≤ k.count + (offset + 1 - (t.kept k).consumed)
  closed : k.closed → l = k
  consumed : found → (t.kept l).consumed = max (t.kept k).consumed (offset + 1)

theorem PullCost.imp {found found' : Prop} {offset : Nat} (h : t.PullCost k offset l found)
    (hi : found' → found) : t.PullCost k offset l found' :=
  { h with consumed := fun hfound => h.consumed (hi hfound) }

theorem PullCost.known {found : Prop} {offset : Nat} (hvalid : t.config.validate = .ok ())
    (h : t.PullCost k offset l found)
    (hk : offset < (t.kept k).consumed ∨ (t.kept k).exhausted ∨ (t.kept k).isClosed) :
    l.count = k.count := by
  rcases hk with hlt | hdone
  · have hmost := h.most
    have hle := h.le
    omega
  · exact count_eq_of_done hvalid hdone h.le h.pulls h.closed

theorem PullCost.idle {found : Prop} {offset : Nat} (h : t.start.Pulls t.outcomes k.count)
    (hf : ¬found) : t.PullCost k offset k found :=
  ⟨le_rfl, h, Nat.le_add_right _ _, fun _ => rfl, fun hfound => absurd hfound hf⟩

theorem Answers.costs {feed offset : Nat} {s s' : Feeds α} {r : Outcome StreamError Bool}
    (hvalid : t.config.validate = .ok ()) (hpulls : t.start.Pulls t.outcomes k.count)
    (h : t.Answers feed s k offset l r s') : t.PullCost k offset l (r = .ok true) := by
  cases hclosed : k.closed with
  | true =>
    obtain ⟨rfl, -, hr⟩ := h.shut hclosed
    refine .idle hpulls ?_
    rw [hr]
    rintro ⟨⟩
  | false =>
    obtain ⟨hopen, hasked⟩ := h.asked hclosed
    have hkept : t.kept k = t.buffer k.count := by simp [kept, hclosed]
    have hkept' : t.kept l = t.buffer l.count := by simp [kept, hopen]
    refine ⟨hasked.count_le, hasked.pulls, ?_, ?_, ?_⟩
    · rw [hkept]
      exact hasked.le_add
    · rw [hclosed]
      rintro ⟨⟩
    · intro hr
      obtain ⟨hf', hlt⟩ := hasked.found hr
      have hf : (t.buffer k.count).failure = none := by
        cases hf : (t.buffer k.count).failure with
        | none => rfl
        | some f =>
          obtain ⟨-, hraise⟩ := hasked.refused f hf
          rw [hr] at hraise
          cases hraise
      have hlength := (sound_buffer hvalid hpulls).length_eq hf
      have hlength' : (t.items l.count).length = (t.buffer l.count).consumed :=
        (sound_buffer hvalid hasked.pulls).length_eq hf'
      have hgrown : (t.items l.count).length ≤ (t.items k.count).length + (l.count - k.count) :=
        length_delivered_le hasked.count_le
      have hle : (t.buffer k.count).consumed ≤ (t.buffer l.count).consumed :=
        Buffer.consumed_after_le _ _ hasked.count_le
      have hadd : l.count ≤ k.count + (offset + 1 - (t.buffer k.count).consumed) := hasked.le_add
      have hlt' : offset < (t.buffer l.count).consumed := hlt
      rw [hkept, hkept']
      omega

theorem Reached.cursorOp_of_asked (h : t.Reached base s k) {i offset : Nat} {cursorOp : CursorOp}
    (hu : s.asked? (.cursorOp i cursorOp) = some offset) :
    ∃ id head, s.cursors[i]? = some (.plain s.feed id head) ∧ head.position = offset ∧
      (cursorOp = .hasNext ∨ cursorOp = .next) := by
  have hop : cursorOp = .hasNext ∨ cursorOp = .next := by
    cases cursorOp with
    | hasNext => exact .inl rfl
    | next => exact .inr rfl
    | _ => cases hu
  have hi : s.cursors[i]?.map Cursor.position = some offset := by
    rcases hop with rfl | rfl <;> exact hu
  obtain ⟨c, hc, rfl⟩ := Option.map_eq_some_iff.mp hi
  obtain ⟨id, head, rfl⟩ := h.cursors c (List.mem_of_getElem? hc)
  exact ⟨id, head, hc, rfl, hop⟩

theorem Reached.turned (hvalid : t.config.validate = .ok ()) (h : t.Reached base s k) {i : Nat}
    {id : ProviderId} {head : Head} (hi : s.cursors[i]? = some (.plain s.feed id head)) {cursorOp : CursorOp}
    (hop : cursorOp = .hasNext ∨ cursorOp = .next) :
    ∃ l, t.AtProgress s.feed base (s.use (.cursorOp i cursorOp)).2.store.feeds l ∧
      t.PullCost k head.position l (s.use (.cursorOp i cursorOp)).1.Found := by
  cases hclosed : head.closed with
  | true =>
    refine ⟨k, ?_⟩
    have hb := h.atProgress.buffer?_eq
    rcases hop with rfl | rfl
    · have hhas : (Cursor.plain s.feed id head).hasNext s.store.feeds =
          (.raise .cursorClosed, s.store.feeds) := by
        simp only [Cursor.hasNext, Cursor.hasNextBy, Head.hasNext, hclosed, if_true, Feeds.onBuffer,
          hb]
        rw [Feeds.setBuffer_setBuffer hb]
      simp only [Shared.use, hi, CursorOp.perform, Store.onFeeds, Store.Call.run_bind,
        Store.Call.run_modifyGet, Store.Call.run_pure, hhas]
      refine ⟨h.atProgress, .idle h.atProgress.pulls ?_⟩
      rintro ⟨⟩
    · have hnext : (Cursor.plain s.feed id head).next s.store.feeds =
          (.raise .cursorClosed, .plain s.feed id head, s.store.feeds) := by
        simp only [Cursor.next, Cursor.nextBy, hb, Head.next_of_closed hclosed]
        rw [Feeds.setBuffer_setBuffer hb]
      simp only [Shared.use, hi, CursorOp.perform, Cursor.read, Store.onFeeds, Store.Call.run_bind,
        Store.Call.run_modifyGet, Store.Call.run_pure, hnext]
      refine ⟨h.atProgress, .idle h.atProgress.pulls ?_⟩
      rintro ⟨a, ⟨⟩⟩
  | false =>
    obtain ⟨l, r, s', hprogress, hanswers⟩ := h.atProgress.answers hvalid head.position
    have hcosts := hanswers.costs hvalid h.atProgress.pulls
    refine ⟨l, ?_⟩
    rcases hop with rfl | rfl
    · have hhas : (Cursor.plain s.feed id head).hasNext s.store.feeds = (r, s') := by
        rw [← hanswers.hasNext]
        unfold Cursor.hasNext Cursor.hasNextBy Head.hasNext
        simp [hclosed]
      simp only [Shared.use, hi, CursorOp.perform, Store.onFeeds, Store.Call.run_bind,
        Store.Call.run_modifyGet, Store.Call.run_pure, hhas]
      exact ⟨hprogress, hcosts⟩
    · obtain ⟨head', -, -, hnext⟩ := hanswers.next id head hclosed rfl
      simp only [Shared.use, hi, CursorOp.perform, Cursor.read, Store.onFeeds, Store.Call.run_bind,
        Store.Call.run_modifyGet, Store.Call.run_pure, Cursor.next, hnext]
      refine ⟨hprogress, hcosts.imp ?_⟩
      rintro ⟨a, ha⟩
      rcases r with stop | found
      · cases ha
      · cases found with
        | true => rfl
        | false => cases ha

theorem Reached.asked (hvalid : t.config.validate = .ok ()) (h : t.Reached base s k) {u : SharedOp}
    {offset : Nat} (hu : s.asked? u = some offset) :
    ∃ l, t.AtProgress (s.use u).2.feed base (s.use u).2.store.feeds l ∧
      t.PullCost k offset l (s.use u).1.Found := by
  obtain ⟨l, r, s', hprogress, hanswers⟩ := h.atProgress.answers hvalid offset
  have hcosts := hanswers.costs hvalid h.atProgress.pulls
  cases u with
  | hasNext p =>
    cases hu
    simp only [Shared.use, Shared.call, Store.onFeeds, Store.Call.run_modifyGet, hanswers.hasNext]
    exact ⟨l, hprogress, hcosts⟩
  | bucketFor p =>
    cases hu
    simp only [Shared.use, Shared.call, Store.onFeeds, Store.Call.run_modifyGet, hanswers.bucketFor]
    refine ⟨l, hprogress, hcosts.imp ?_⟩
    rintro ⟨held, hheld⟩
    rcases r with stop | found
    · cases hheld
    · cases found with
      | true => rfl
      | false => cases hheld
  | cursorOp i cursorOp =>
    obtain ⟨id, head, hc, rfl, hop⟩ := h.cursorOp_of_asked hu
    have hfeed : (s.use (.cursorOp i cursorOp)).2.feed = s.feed := by
      simp only [Shared.use, hc]
      rfl
    rw [hfeed]
    exact h.turned hvalid hc hop
  | addCursor provider => cases hu
  | close => cases hu

theorem Reached.idle (hvalid : t.config.validate = .ok ()) (h : t.Reached base s k) {u : SharedOp}
    (hu : u.Idle) : (s.use u).2.pulls = s.pulls := by
  cases u with
  | addCursor provider => rfl
  | close =>
    have hclosed : t.Reached base (s.use .close).2 ⟨true, k.count⟩ :=
      ⟨h.atProgress.closeBuffer hvalid _, h.cursors⟩
    rw [hclosed.pulls_eq, h.pulls_eq]
  | cursorOp i cursorOp =>
    cases hi : s.cursors[i]? with
    | none => simp only [Shared.use, hi]
    | some c =>
      obtain ⟨id, head, rfl⟩ := h.cursors c (List.mem_of_getElem? hi)
      simp only [Shared.use, hi]
      cases cursorOp with
      | seek position =>
        simp only [CursorOp.perform]
        cases Cursor.seek position (.plain s.feed id head) with
        | ok d => rfl
        | error e => rfl
      | release => rfl
      | close => rfl
      | _ => exact hu.elim
  | hasNext offset => exact hu.elim
  | bucketFor offset => exact hu.elim

theorem Reached.frugal (hvalid : t.config.validate = .ok ()) (h : t.Reached base s k) :
    s.PullBounds (t.kept k) := by
  have hpulls : ∀ {s' : Shared α} {l : Progress}, t.AtProgress s'.feed base s'.store.feeds l →
      s'.pulls = l.count := by
    intro s' l hprogress
    simp [Shared.pulls, hprogress.cell, cell]
  refine ⟨fun u offset hu hk => ?_, fun u offset hu => ?_, fun u offset hu hfound => ?_,
    fun u hu => h.idle hvalid hu⟩
  · obtain ⟨l, hprogress, hcosts⟩ := h.asked hvalid hu
    rw [hpulls hprogress, h.pulls_eq, hcosts.known hvalid hk]
  · obtain ⟨l, hprogress, hcosts⟩ := h.asked hvalid hu
    rw [hpulls hprogress, h.pulls_eq]
    exact hcosts.most
  · obtain ⟨l, hprogress, hcosts⟩ := h.asked hvalid hu
    exact ⟨t.kept l, hprogress.buffer?_eq, hcosts.consumed hfound⟩

end Supply

namespace Shared

/-- In every run over a shared buffer each pull is accounted for by its outcome, and the buffer pulls
only for an offset it has not reached, up to that offset. After exhaustion, failure or close the source
is never pulled again. -/
theorem pulls_minimal (t : Supply α) (hvalid : t.config.validate = .ok ()) (m : Store α) :
    ∃ s, begin m t = (.ok (), s) ∧ s.pulls = 0 ∧ ∀ us, ∃ b, (s.run us).2.buffer? = some b ∧
      t.Consumed (s.run us).2.pulls b ∧ (s.run us).2.PullBounds b ∧
      (b.exhausted ∨ b.isClosed → ∀ vs, ((s.run us).2.run vs).2.pulls = (s.run us).2.pulls) := by
  obtain ⟨s, hs, hreached⟩ := Supply.reached_begin hvalid m
  refine ⟨s, hs, hreached.pulls_eq, fun us => ?_⟩
  obtain ⟨k, -, h, -⟩ := hreached.run hvalid us
  refine ⟨t.kept k, h.buffer?_eq, ?_, h.frugal hvalid, fun hdone vs => ?_⟩
  · rw [h.pulls_eq]
    exact Supply.spent hvalid h.atProgress.pulls
  · obtain ⟨l, hl, h', -⟩ := h.run hvalid vs
    rw [h'.pulls_eq, h.pulls_eq]
    exact Supply.count_eq_of_done hvalid hdone hl.count_le h'.atProgress.pulls hl.eq_of_closed

theorem pulls_minimal_five :
    ∃ s, begin {} (.counting ⟨2, 3, .unbounded, .owned⟩ 5) = (.ok (), s) ∧ s.pulls = 0 ∧
      ∀ us, ∃ b, (s.run us).2.buffer? = some b ∧
        (Supply.counting ⟨2, 3, .unbounded, .owned⟩ 5).Consumed (s.run us).2.pulls b ∧
        (s.run us).2.PullBounds b ∧
        (b.exhausted ∨ b.isClosed →
          ∀ vs, ((s.run us).2.run vs).2.pulls = (s.run us).2.pulls) :=
  pulls_minimal _ rfl {}

end Shared
end Replay
