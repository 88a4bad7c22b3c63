import Replay.Error

/-!
The configuration of a buffer: the capacities of the first and of later buckets, the limit, and whether
it closes its source.
-/
namespace Replay

inductive Limit where
  | unbounded
  | limited (count : Nat) (positive : 0 < count)
  deriving DecidableEq

namespace Limit

def ofCount (count : Nat) : Except StreamError Limit :=
  if h : 0 < count then .ok (.limited count h)
  else .error (.invalidConfig "max_buffer_size must be positive")

def count? : Limit → Option Nat
  | unbounded => none
  | limited count _ => some count

def exceededBy (l : Limit) (total : Nat) : Bool :=
  match l.count? with
  | none => false
  | some count => decide (count < total)

def text : Limit → String
  | unbounded => "unbounded"
  | limited count _ => toString count

end Limit

/-- An owned source is closed with the buffer, a borrowed one is not. -/
inductive Ownership where
  | owned
  | borrowed
  deriving DecidableEq

structure Config where
  initial : Nat
  increment : Nat
  limit : Limit
  ownership : Ownership
  deriving DecidableEq

namespace Config

/-- Steps of 100 items and no limit. -/
def forObjects : Config := ⟨100, 100, .unbounded, .owned⟩

/-- Steps of 256 KiB up to 1 MiB. -/
def forBytes : Config := ⟨262144, 262144, .limited 1048576 (by decide), .owned⟩

/-- The first bucket must have capacity, within the limit. -/
def validate (c : Config) : Except StreamError Unit :=
  if c.initial = 0 then .error (.invalidConfig "initial_buffer_size must be positive")
  else
    match c.limit.count? with
    | none => .ok ()
    | some count =>
      if count < c.initial then
        .error (.invalidConfig
          s!"max_buffer_size ({count}) is lower than initial_buffer_size ({c.initial})")
      else .ok ()

theorem validate_ok_iff {c : Config} :
    c.validate = .ok () ↔
      0 < c.initial ∧ ∀ count, c.limit.count? = some count → c.initial ≤ count := by
  unfold validate
  by_cases h : c.initial = 0
  · simp [h]
  · cases hc : c.limit.count? with
    | none => simp [h, Nat.pos_of_ne_zero h]
    | some count =>
      by_cases hl : count < c.initial
      · simp [h, hl]
      · simp [h, hl, Nat.pos_of_ne_zero h, Nat.le_of_not_lt hl]

end Config
end Replay
