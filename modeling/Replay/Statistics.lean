/-!
Counts of open providers and cursors. Decrements saturate at zero; `clipped` records that one had to.
-/
namespace Replay

structure Statistics where
  providers : Nat := 0
  cursors : Nat := 0
  clipped : Bool := false
  deriving DecidableEq

namespace Statistics

def openProvider (s : Statistics) : Statistics := { s with providers := s.providers + 1 }

def closeProvider (s : Statistics) : Statistics :=
  { s with providers := s.providers - 1, clipped := s.clipped || s.providers == 0 }

def openCursor (s : Statistics) : Statistics := { s with cursors := s.cursors + 1 }

def closeCursors (s : Statistics) (count : Nat) : Statistics :=
  { s with cursors := s.cursors - count, clipped := s.clipped || decide (s.cursors < count) }

/-- Decrements commute, `clipped` included. -/
theorem closeCursors_comm (s : Statistics) (count more : Nat) :
    (s.closeCursors count).closeCursors more = (s.closeCursors more).closeCursors count := by
  have hshort : (s.cursors < count ∨ s.cursors - count < more) ↔
      (s.cursors < more ∨ s.cursors - more < count) := by omega
  have hclipped : (s.clipped || decide (s.cursors < count) || decide (s.cursors - count < more)) =
      (s.clipped || decide (s.cursors < more) || decide (s.cursors - more < count)) := by
    rw [Bool.or_assoc, Bool.or_assoc, ← Bool.decide_or, ← Bool.decide_or, decide_eq_decide.mpr hshort]
  exact (mk.injEq ..).mpr ⟨rfl, Nat.sub_right_comm .., hclipped⟩

theorem closeCursors_closeProvider (s : Statistics) (count : Nat) :
    s.closeProvider.closeCursors count = (s.closeCursors count).closeProvider := by
  simp only [closeCursors, closeProvider, mk.injEq, true_and]
  exact Bool.or_right_comm ..

def json (s : Statistics) : String :=
  s!"\x7b\"open_providers\":{s.providers},\"open_cursors\":{s.cursors}\x7d"

end Statistics
end Replay
