import Replay.Position

/-!
A bucket holds consecutive items. Its capacity is fixed and items are only appended, so an item once
stored stays where it is.
-/
namespace Replay

structure Bucket (α : Type) where
  index : Nat
  capacity : Nat
  items : Array α := #[]

namespace Bucket

variable {α : Type}

def filled (b : Bucket α) : Nat := b.items.size

def isFull (b : Bucket α) : Bool := b.filled == b.capacity

/-- The slot lies in this bucket and is filled. -/
def contains (b : Bucket α) (p : Position) : Bool :=
  p.bucket == b.index && decide (p.item < b.filled)

def get? (b : Bucket α) (item : Nat) : Option α := b.items[item]?

/-- A full bucket is unchanged. -/
def push (b : Bucket α) (a : α) : Bucket α :=
  if b.isFull then b else { b with items := b.items.push a }

@[simp] theorem contains_iff {b : Bucket α} {p : Position} :
    b.contains p ↔ p.bucket = b.index ∧ p.item < b.filled := by
  simp [contains]

@[simp] theorem isSome_get? {b : Bucket α} {item : Nat} :
    (b.get? item).isSome ↔ item < b.filled := by
  simp [get?, filled]

@[simp] theorem index_push (b : Bucket α) (a : α) : (b.push a).index = b.index := by
  unfold push; split <;> rfl

@[simp] theorem capacity_push (b : Bucket α) (a : α) : (b.push a).capacity = b.capacity := by
  unfold push; split <;> rfl

theorem push_of_isFull {b : Bucket α} {a : α} (h : b.isFull) : b.push a = b := by
  simp [push, h]

theorem items_push {b : Bucket α} {a : α} (h : b.isFull = false) :
    (b.push a).items = b.items.push a := by
  simp [push, h]

end Bucket
end Replay
