import Replay.Error

/-!
Close and release never fail: errors and panics on the way are recorded as faults, and the teardown goes
on. A report says whether the call performed the teardown and which faults it met.
-/
namespace Replay

inductive Stage where
  | closeProvider
  | releaseProvider
  | releaseCursor
  deriving DecidableEq

def Stage.text : Stage → String
  | .closeProvider => "close_provider"
  | .releaseProvider => "release_provider"
  | .releaseCursor => "release_cursor"

structure Fault where
  provider : ProviderId
  stage : Stage
  detail : String
  deriving DecidableEq

structure Report where
  performed : Bool
  faults : List Fault
  deriving DecidableEq

namespace Report

/-- The teardown was performed before. -/
def skipped : Report := ⟨false, []⟩

def begun : Report := ⟨true, []⟩

def isClean (r : Report) : Bool := r.faults.isEmpty

def merge (r s : Report) : Report := ⟨r.performed || s.performed, r.faults ++ s.faults⟩

def add (r : Report) (f : Fault) : Report := { r with faults := r.faults ++ [f] }

@[simp] theorem merge_skipped (r : Report) : r.merge skipped = r := by simp [merge, skipped]

@[simp] theorem skipped_merge (r : Report) : skipped.merge r = r := by simp [merge, skipped]

/-- Faults ordered by provider, stably. -/
def sorted (r : Report) : Report :=
  { r with faults := r.faults.mergeSort fun f g => decide (f.provider.number ≤ g.provider.number) }

end Report

/-- The message of a fault, if the step did not succeed. -/
def Outcome.complaint {α : Type} : Outcome StreamError α → Option String
  | .ok _ => none
  | .error (.error e) => some e.message
  | .error (.panic p) => some s!"panicked: {p.text}"

end Replay
