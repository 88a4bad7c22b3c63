/-!
The slot of an offset. The first bucket has its own capacity and all later ones share another, so the
slot is computed from the offset alone.
-/
namespace Replay

structure Position where
  bucket : Nat
  item : Nat
  deriving DecidableEq

namespace Position

def text (p : Position) : String := s!"({p.bucket}, {p.item})"

/-- The lexicographic order of bucket and place. -/
def Before (p q : Position) : Prop :=
  p.bucket < q.bucket ∨ (p.bucket = q.bucket ∧ p.item < q.item)

instance : LT Position := ⟨Before⟩
instance : LE Position := ⟨fun p q => p < q ∨ p = q⟩

theorem lt_iff {p q : Position} :
    p < q ↔ p.bucket < q.bucket ∨ (p.bucket = q.bucket ∧ p.item < q.item) := Iff.rfl

theorem le_iff {p q : Position} : p ≤ q ↔ p < q ∨ p = q := Iff.rfl

instance (p q : Position) : Decidable (p < q) := decidable_of_iff' _ lt_iff
instance (p q : Position) : Decidable (p ≤ q) := decidable_of_iff' _ le_iff

def sort (ps : List Position) : List Position := ps.mergeSort fun p q => decide (p ≤ q)

def distinct (ps : List Position) : Nat := ps.eraseDups.length

def last? (ps : List Position) : Option Position := (sort ps).getLast?

end Position

/-- The capacity of the first bucket, and of each later one. An increment of zero allows only the first.
-/
structure Layout where
  initial : Nat
  increment : Nat
  deriving DecidableEq

namespace Layout

def grows (l : Layout) : Bool := decide (0 < l.increment)

/-- The slot of an offset; none if it lies past the only bucket. -/
def locate (l : Layout) (offset : Nat) : Option Position :=
  if offset < l.initial then some ⟨0, offset⟩
  else if l.increment = 0 then none
  else
    let bucket := (offset - l.initial) / l.increment + 1
    some ⟨bucket, offset - (l.initial + (bucket - 1) * l.increment)⟩

def capacity (l : Layout) (bucket : Nat) : Nat :=
  if bucket = 0 then l.initial else l.increment

def start (l : Layout) (bucket : Nat) : Nat :=
  if bucket = 0 then 0 else l.initial + (bucket - 1) * l.increment

@[simp] theorem start_zero (l : Layout) : l.start 0 = 0 := rfl

theorem start_succ (l : Layout) (bucket : Nat) :
    l.start (bucket + 1) = l.start bucket + l.capacity bucket := by
  cases bucket with
  | zero => simp [start, capacity]
  | succ bucket =>
    have h : (bucket + 1) * l.increment = bucket * l.increment + l.increment := Nat.succ_mul ..
    simp only [start, capacity, Nat.add_one_ne_zero, if_false, Nat.add_sub_cancel]
    omega

theorem locate_first {l : Layout} {offset : Nat} (h : offset < l.initial) :
    l.locate offset = some ⟨0, offset⟩ := by
  simp [locate, h]

theorem locate_none {l : Layout} {offset : Nat} :
    l.locate offset = none ↔ l.increment = 0 ∧ l.initial ≤ offset := by
  unfold locate
  split
  · simp; omega
  · split
    · simp_all
    · simp_all

end Layout
end Replay
