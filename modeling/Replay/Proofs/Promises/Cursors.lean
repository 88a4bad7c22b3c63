import Replay.Proofs.Accounts.Lent
import Replay.Proofs.OpenReads
import Replay.Proofs.Promises.Upkeep
import Replay.Proofs.Shared.Terminal

/-!
`has_next` of a cursor predicts `next`: after true, `next` returns an item, after false it returns
`None`, and neither pulls again. `missing_item` is unreachable.
-/
namespace Replay

open Store

variable {α : Type} {feed : Nat}

namespace Feeds

variable {s s' : Feeds α} {b : Buffer α}

theorem setBuffer_takeOut (h : s.buffer? feed = none) (b : Buffer α) :
    (s.setBuffer feed (some b)).setBuffer feed none = s := by
  obtain ⟨cells, log⟩ := s
  simp only [setBuffer, modify, mk.injEq, and_true]
  apply Array.ext_getElem?
  intro i
  rw [Array.getElem?_modify, Array.getElem?_modify]
  split
  · rename_i hi
    subst hi
    cases hc : cells[feed]? with
    | none => rfl
    | some c =>
      simp only [buffer?, hc, Option.bind_some] at h
      simp [← h]
  · rfl

theorem ReadsTo.buffer?_eq_none (h : (s.setBuffer feed none).ReadsTo s') : s'.buffer? feed = none := by
  have hterms := h.terms feed
  rw [terms_setBuffer, if_pos rfl] at hterms
  unfold Feeds.terms at hterms
  rw [buffer?]
  cases hc : s'.cells[feed]? with
  | none => rfl
  | some c =>
    rw [hc, Option.map_some] at hterms
    obtain ⟨t, -, ht⟩ := Option.map_eq_some_iff.mp hterms.symm
    injection ht with _ _ hbuffer
    rw [Option.bind_some]
    exact Option.map_eq_none_iff.mp hbuffer.symm

end Feeds

namespace Cursor

open Feeds

variable {draw : Draw α} {s s' : Feeds α}

/-- The call of `next` after `has_next` has answered `said`, and that `next` alone gives the same
result. -/
structure Promises (c : Cursor) (draw : Draw α) (s : Feeds α) (said : Bool) (s' : Feeds α) : Prop where
  again : c.hasNextBy draw s' = (.ok said, s')
  direct : c.nextBy draw s = c.nextBy draw s'
  found : said = true → ∃ a d, c.nextBy draw s' = (.ok a, d, s') ∧ d.position = c.position + 1
  ended : said = false → c.nextBy draw s' = (.raise (.endOfData c.position), c, s')

theorem promises_plain (hd : EndsNothing draw) {provider : ProviderId} {head : Head} {b : Buffer α}
    (hb : s.buffer? feed = some b) (hconsistent : b.Consistent) {found : Bool}
    (h : (plain feed provider head).hasNextBy draw s = (.ok found, s')) :
    (plain feed provider head).Promises draw s found s' := by
  rcases hhead : head.hasNext (tap draw feed) b (s.setBuffer feed none) with ⟨r, b', s₁⟩
  simp only [hasNextBy, onBuffer, hb, hhead, Prod.mk.injEq] at h
  obtain ⟨rfl, rfl⟩ := h
  have hopen : head.closed = false := by
    by_contra hclosed
    rw [Head.hasNext, if_pos (by simpa using hclosed)] at hhead
    cases hhead
  have hreads : (s.setBuffer feed none).ReadsTo s₁ := by
    have hkeeps := head.hasNext_preserves (b := b) (hd.preserves feed (s.setBuffer feed none)) (.refl _)
    rwa [hhead] at hkeeps
  have hlt : feed < s₁.cells.size := by
    obtain ⟨c, hc, -⟩ := Option.bind_eq_some_iff.mp hb
    rw [hreads.size, size_setBuffer]
    exact (Array.getElem?_eq_some_iff.mp hc).1
  have hback : (s₁.setBuffer feed (some b')).buffer? feed = some b' := buffer?_setBuffer hlt _
  have htaken : (s₁.setBuffer feed (some b')).setBuffer feed none = s₁ :=
    setBuffer_takeOut hreads.buffer?_eq_none b'
  rw [Head.hasNext_eq hopen] at hhead
  have hanswered := hconsistent.hasNext (tap draw feed) head.position (s.setBuffer feed none)
  rw [hhead] at hanswered
  have hagain := hanswered.again (tap draw feed) s₁
  -- `next` of the head is determined by the answer and the buffer, and asking again changes neither
  have hnext : (plain feed provider head).nextBy draw (s₁.setBuffer feed (some b')) =
      ((head.brings b' (.ok found)).1, plain feed provider (head.brings b' (.ok found)).2,
        s₁.setBuffer feed (some b')) := by
    simp only [nextBy, hback, htaken, Head.next_eq hanswered.consistent hopen hagain]
  refine ⟨?_, ?_, ?_, ?_⟩
  · simp only [hasNextBy, onBuffer, hback, htaken, Head.hasNext_eq hopen, hagain]
  · rw [hnext]
    simp only [nextBy, hb, Head.next_eq hconsistent hopen hhead]
  · rintro rfl
    obtain ⟨hlive, hmore⟩ := hanswered.found rfl
    obtain ⟨p, a, -, -, ha⟩ := hanswered.consistent.exists_at? hlive hmore
    refine ⟨a, plain feed provider (head.brings b' (.ok true)).2, hnext.trans ?_, rfl⟩
    rw [Head.brings, ha, Head.present]
  · rintro rfl
    exact hnext

/-- At every depth of managed cursors. -/
theorem promises (hd : EndsNothing draw) {c : Cursor}
    (hconsistent : ∀ b, s.buffer? c.feed = some b → b.Consistent) {found : Bool}
    (h : c.hasNextBy draw s = (.ok found, s')) : c.Promises draw s found s' := by
  induction c with
  | plain feed provider head =>
    cases hb : s.buffer? feed with
    | none =>
      simp only [hasNextBy, onBuffer, hb] at h
      cases h
    | some b => exact promises_plain hd hb (hconsistent b hb) h
  | managed janitor released inner ih =>
    rw [hasNextBy] at h
    split at h
    · cases h
    · rename_i hlive
      obtain ⟨hagain, hdirect, hfound, hended⟩ := ih hconsistent h
      refine ⟨?_, ?_, fun hr => ?_, fun hr => ?_⟩
      · rw [hasNextBy, if_neg hlive, hagain]
      · rw [nextBy, nextBy, if_neg hlive, if_neg hlive, hdirect]
      · obtain ⟨a, d, hnext, hposition⟩ := hfound hr
        exact ⟨a, managed janitor released d, by rw [nextBy, if_neg hlive, hnext], hposition⟩
      · rw [nextBy, if_neg hlive, hended hr]
        rfl
  | watched slot act inner ih =>
    obtain ⟨hagain, hdirect, hfound, hended⟩ := ih hconsistent h
    refine ⟨hagain, ?_, fun hr => ?_, fun hr => ?_⟩
    · rw [nextBy, nextBy, hdirect]
    · obtain ⟨a, d, hnext, hposition⟩ := hfound hr
      exact ⟨a, watched slot act d, by rw [nextBy, hnext], hposition⟩
    · rw [nextBy, hended hr]
      rfl

theorem hasNextBy_ne_missing {c : Cursor} (hconsistent : ∀ b, s.buffer? c.feed = some b → b.Consistent)
    (position : Nat) : (c.hasNextBy draw s).1 ≠ .raise (.missingItem position) := by
  induction c with
  | plain feed provider head =>
    unfold hasNextBy onBuffer
    split
    · rintro ⟨⟩
    · rename_i b hb
      cases hclosed : head.closed with
      | true =>
        rw [Head.hasNext, if_pos hclosed]
        rintro ⟨⟩
      | false =>
        rw [Head.hasNext_eq hclosed]
        exact ((hconsistent b hb).hasNext _ _ _).whole position
  | managed janitor released inner ih =>
    unfold hasNextBy
    split
    · rintro ⟨⟩
    · exact ih hconsistent
  | watched slot act inner ih => exact ih hconsistent

theorem nextBy_ne_missing {c : Cursor} (hconsistent : ∀ b, s.buffer? c.feed = some b → b.Consistent)
    (position : Nat) : (c.nextBy draw s).1 ≠ .raise (.missingItem position) := by
  induction c with
  | plain feed provider head =>
    unfold nextBy
    split
    · rintro ⟨⟩
    · rename_i b hb
      cases hclosed : head.closed with
      | true =>
        rw [Head.next_of_closed hclosed]
        rintro ⟨⟩
      | false =>
        rw [Head.next_eq (hconsistent b hb) hclosed Prod.mk.eta.symm]
        exact Head.brings_ne_missing ((hconsistent b hb).hasNext _ _ _) position
  | managed janitor released inner ih =>
    unfold nextBy
    split
    · rintro ⟨⟩
    · exact ih hconsistent
  | watched slot act inner ih => exact ih hconsistent

theorem stepBy_ne_missing (hd : PullsConsistent draw) {c : Cursor} (h : s.Consistent) (position : Nat) :
    (c.stepBy draw s).1 ≠ .raise (.missingItem position) :=
  stepBy_ne (hasNextBy_ne_missing (fun b hb => h _ b hb) position)
    (nextBy_ne_missing (fun b hb => c.consistent_hasNextBy hd h _ b hb) position)

theorem seek_ne_missing (c : Cursor) (position offset : Nat) :
    c.seek position ≠ .error (.missingItem offset) := by
  cases ho : c.obstacle? with
  | none =>
    obtain ⟨d, hd, -⟩ := seek_of_no_obstacle ho position
    rw [hd]
    nofun
  | some e =>
    rw [seek_of_obstacle ho position]
    rintro ⟨⟩
    exact obstacle?_ne_missing c offset ho

end Cursor

theorem CursorOp.not_hasError_missing {m : Store α} (h : m.feeds.Consistent) (c : Cursor) (t : CursorOp)
    (position : Nat) : ¬ ((t.perform c).run m).1.1.HasError (.missingItem position) := by
  have hkeeps : (Cursor.reader (α := α)).Preserves fun place => place.2.Consistent :=
    fun place hplace => place.1.consistent_stepBy Feeds.pullsConsistent_draw hplace
  refine CursorOp.not_hasError hkeeps (fun _ hplace => ?_) h ?_ ?_ ?_ t
  · exact Cursor.stepBy_ne_missing Feeds.pullsConsistent_draw hplace position
  · exact Cursor.hasNextBy_ne_missing (fun b hb => h _ b hb) position
  · exact Cursor.nextBy_ne_missing (fun b hb => h _ b hb) position
  · exact fun offset => c.seek_ne_missing offset position

/-- Reads of the buffer never return `missing_item`, and find every offset it has reached. -/
structure Feeds.Reliable (s : Feeds α) (feed : Nat) : Prop where
  hasNext_ne : ∀ offset position,
    (s.onBuffer feed (Buffer.hasNext (tap draw feed) offset)).1 ≠ .raise (.missingItem position)
  bucketFor_ne : ∀ offset position,
    (s.onBuffer feed (Buffer.bucketFor (tap draw feed) offset)).1 ≠ .raise (.missingItem position)
  known : ∀ b, s.buffer? feed = some b → b.isClosed = false → ∀ offset < b.consumed,
    s.onBuffer feed (Buffer.hasNext (tap draw feed) offset) = (.ok true, s) ∧
      ∃ held, s.onBuffer feed (Buffer.bucketFor (tap draw feed) offset) = (.ok (some held), s)

theorem Feeds.Consistent.reliable {s : Feeds α} (h : s.Consistent) (feed : Nat) : s.Reliable feed where
  hasNext_ne offset position := by
    unfold Feeds.onBuffer
    split
    · nofun
    · rename_i b hb
      exact ((h feed b hb).hasNext _ offset _).whole position
  bucketFor_ne offset position := by
    unfold Feeds.onBuffer
    split
    · nofun
    · rename_i b hb
      rw [(h feed b hb).bucketFor_eq Prod.mk.eta.symm]
      exact ((h feed b hb).hasNext _ offset _).heldAt_ne_missing position
  known b hb hopen offset hlt := by
    have hlive := Buffer.refusal_eq_none_iff.mpr hopen
    have hhas : ∀ t : Feeds α, b.hasNext (tap draw feed) offset t = (.ok true, b, t) :=
      Buffer.hasNext_of_lt hlive hlt
    obtain ⟨p, -, hp, -⟩ := (h feed b hb).exists_at? hlive hlt
    refine ⟨Supply.onBuffer_idle hb hhas, p.bucket, Supply.onBuffer_idle hb fun t => ?_⟩
    rw [(h feed b hb).bucketFor_eq (hhas t), Buffer.heldAt, hp]
    rfl

/-- `has_next` of the cursor predicts its `next`. -/
structure Cursor.Reliable (c : Cursor) (s : Feeds α) : Prop where
  hasNext_ne : ∀ position, (c.hasNext s).1 ≠ .raise (.missingItem position)
  next_ne : ∀ position, (c.next s).1 ≠ .raise (.missingItem position)
  found : ∀ s', c.hasNext s = (.ok true, s') →
    ∃ a d, c.next s' = (.ok a, d, s') ∧ d.position = c.position + 1
  ended : ∀ s', c.hasNext s = (.ok false, s') →
    c.next s' = (.raise (.endOfData c.position), c, s')
  direct : ∀ found s', c.hasNext s = (.ok found, s') → c.next s = c.next s'

/-- In every reachable store, over all sources, no read returns `missing_item`, and an open buffer
returns every item it has reached. The answer of `has_next` holds for the following `next`, which makes
no further pull, and `next` alone has the same result and leaves the same state. -/
theorem StoreOp.promises_kept (ops : List (StoreOp α)) :
    (∀ feed, (run {} ops).feeds.Reliable feed) ∧
      (∀ c : Cursor, c.Reliable (run {} ops).feeds) ∧
      ∀ (c : Cursor) (t : CursorOp) (position : Nat),
        ¬ ((t.perform c).run (run {} ops)).1.1.HasError (.missingItem position) := by
  have h : (run {} ops).feeds.Consistent := consistent_run_empty ops
  have hpromises : ∀ (c : Cursor) {found : Bool} {s' : Feeds α},
      c.hasNext (run {} ops).feeds = (.ok found, s') →
        c.Promises Feeds.draw (run {} ops).feeds found s' :=
    fun c => Cursor.promises Feeds.endsNothing_draw fun b hb => h _ b hb
  refine ⟨h.reliable, fun c => ⟨?_, ?_, ?_, ?_, ?_⟩, fun c t => t.not_hasError_missing h c⟩
  · exact Cursor.hasNextBy_ne_missing fun b hb => h _ b hb
  · exact Cursor.nextBy_ne_missing fun b hb => h _ b hb
  · exact fun s' hs' => (hpromises c hs').found rfl
  · exact fun s' hs' => (hpromises c hs').ended rfl
  · exact fun found s' hs' => (hpromises c hs').direct

end Replay
