import Replay.Proofs.Shared.ClosedForm
import Replay.Proofs.Shared.Consumption

/-!
Failure and close are final. The buffer then has one error for every reader, which no later operation
changes. Errors of the cursor itself take precedence.
-/
namespace Replay

open Store

variable {α β : Type}

namespace Buffer

/-- The error of a failed or closed buffer. -/
def terminalError (b : Buffer α) : StreamError := (b.failure.map Failure.error).getD .bufferClosed

theorem refusal_of_isClosed {b : Buffer α} (h : b.isClosed) : b.refusal = some b.terminalError := by
  unfold refusal terminalError
  cases hf : b.failure with
  | some f => rfl
  | none =>
    have hclosed : b.closed = true := by simpa [isClosed, hf] using h
    simp [hclosed]

end Buffer

namespace Cursor

/-- The error of the cursor itself, outermost layer first. -/
def obstacle? : Cursor → Option StreamError
  | plain _ _ head => if head.closed then some .cursorClosed else none
  | managed _ released inner => if released then some .cursorReleased else inner.obstacle?
  | watched _ _ inner => inner.obstacle?

theorem seek_of_obstacle {c : Cursor} {e : StreamError} (h : c.obstacle? = some e) (position : Nat) :
    c.seek position = .error e := by
  induction c with
  | plain feed provider head =>
    unfold obstacle? at h
    split at h
    · rename_i hclosed
      cases h
      simp [seek, Head.seek, hclosed, Except.map]
    · cases h
  | managed janitor released inner ih =>
    unfold obstacle? at h
    unfold seek
    split at h
    · rename_i hreleased
      cases h
      rw [if_pos hreleased]
    · rename_i hlive
      rw [if_neg hlive, ih h]
      rfl
  | watched slot act inner ih =>
    unfold seek
    rw [ih h]
    rfl

theorem obstacle?_ne_missing (c : Cursor) (position : Nat) :
    c.obstacle? ≠ some (.missingItem position) := by
  induction c with
  | plain feed provider head =>
    unfold obstacle?
    split
    · nofun
    · nofun
  | managed janitor released inner ih =>
    unfold obstacle?
    split
    · nofun
    · exact ih
  | watched slot act inner ih => exact ih

theorem seek_of_no_obstacle {c : Cursor} (h : c.obstacle? = none) (position : Nat) :
    ∃ d, c.seek position = .ok d ∧ d.position = position := by
  suffices hseek : ∃ d, c.seek position = .ok d by
    obtain ⟨d, hd⟩ := hseek
    exact ⟨d, hd, seek_position hd⟩
  induction c with
  | plain feed provider head =>
    have hopen : ¬ head.closed := by
      intro hclosed
      simp [obstacle?, hclosed] at h
    simp [seek, Head.seek, hopen, Except.map]
  | managed janitor released inner ih =>
    have hlive : ¬ released := by
      intro hreleased
      simp [obstacle?, hreleased] at h
    have hinner : inner.obstacle? = none := by simpa [obstacle?, hlive] using h
    obtain ⟨d, hd⟩ := ih hinner
    exact ⟨_, by rw [seek, if_neg hlive, hd]; rfl⟩
  | watched slot act inner ih =>
    obtain ⟨d, hd⟩ := ih h
    exact ⟨_, by rw [seek, hd]; rfl⟩

variable {s : Feeds α} {b : Buffer α} {e : StreamError} {draw : Feeds.Draw α}

theorem hasNextBy_of_refusal {c : Cursor} (hb : s.buffer? c.feed = some b)
    (he : c.obstacle? = none → b.refusal = some e) :
    c.hasNextBy draw s = (.raise (c.obstacle?.getD e), s) := by
  induction c with
  | plain feed provider head =>
    refine Supply.onBuffer_idle hb fun s => ?_
    unfold Head.hasNext obstacle?
    split
    · rfl
    · rename_i hclosed
      exact Buffer.hasNext_of_refusal (he (if_neg hclosed)) _ s
  | managed janitor released inner ih =>
    unfold hasNextBy obstacle?
    split
    · rfl
    · rename_i hlive
      exact ih hb fun ho => he ((if_neg hlive).trans ho)
  | watched slot act inner ih => exact ih hb he

theorem nextBy_of_refusal {c : Cursor} (hb : s.buffer? c.feed = some b)
    (he : c.obstacle? = none → b.refusal = some e) :
    c.nextBy draw s = (.raise (c.obstacle?.getD e), c, s) := by
  induction c with
  | plain feed provider head =>
    have hbuffer : s.buffer? feed = some b := hb
    have hsame : (s.setBuffer feed none).setBuffer feed (some b) = s := Feeds.setBuffer_setBuffer hb
    unfold nextBy obstacle?
    rw [hbuffer]
    by_cases hclosed : head.closed
    · simp only [Head.next_of_closed hclosed, hclosed, if_true, Option.getD_some]
      rw [hsame]
    · have hopen : head.closed = false := by simpa using hclosed
      simp only [Head.next_of_refusal hopen (he (if_neg hclosed)), hclosed]
      rw [hsame]
      rfl
  | managed janitor released inner ih =>
    unfold nextBy obstacle?
    split
    · rfl
    · rename_i hlive
      rw [ih hb fun ho => he ((if_neg hlive).trans ho)]
  | watched slot act inner ih =>
    unfold nextBy
    rw [ih hb he]
    rfl

end Cursor

namespace Shared

/-- Every read at every offset returns `e` and changes nothing. -/
structure Over (s : Shared α) (e : StreamError) : Prop where
  hasNext : ∀ offset, s.use (.hasNext offset) = (.flag offset (.raise e), s)
  bucketFor : ∀ offset, s.use (.bucketFor offset) = (.bucket offset (.raise e), s)
  cursor : ∀ c : Cursor, c.feed = s.feed →
    c.hasNext s.store.feeds = (.raise (c.obstacle?.getD e), s.store.feeds) ∧
      c.next s.store.feeds = (.raise (c.obstacle?.getD e), c, s.store.feeds)
  cursorOp : ∀ i c, s.cursors[i]? = some c →
    s.use (.cursorOp i .hasNext) = (.flag c.position (.raise (c.obstacle?.getD e)), s) ∧
      s.use (.cursorOp i .next) = (.item c.position (.raise (c.obstacle?.getD e)), s)

end Shared

namespace Supply

variable {t : Supply α} {base : Array Event} {s : Shared α} {k l : Progress}

theorem consumed_kept : (t.kept k).consumed = (t.buffer k.count).consumed := by
  unfold kept
  split
  · rfl
  · rfl

end Supply

namespace Shared

end Shared
end Replay
