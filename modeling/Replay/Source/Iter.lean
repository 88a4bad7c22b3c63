/-!
Iterators, which differ in what they know of their length: a list knows it, a filtered list knows an
upper bound, the others know nothing.
-/
namespace Replay

inductive Iter (α : Type) where
  | list (ahead : List α)
  | sifted (ahead : List α)
  | gapped (ahead : List (Option α))
  | endless (a : α)

namespace Iter

variable {α : Type}

/-- The next item; a gapped iterator may go on after it has returned none. -/
def next : Iter α → Option α × Iter α
  | list [] => (none, list [])
  | list (a :: ahead) => (some a, list ahead)
  | sifted [] => (none, sifted [])
  | sifted (a :: ahead) => (some a, sifted ahead)
  | gapped [] => (none, gapped [])
  | gapped (a :: ahead) => (a, gapped ahead)
  | endless a => (some a, endless a)

/-- The size hint: lower bound, and upper bound if known. -/
def bounds : Iter α → Nat × Option Nat
  | list ahead => (ahead.length, some ahead.length)
  | sifted ahead => (0, some ahead.length)
  | gapped _ => (0, none)
  | endless _ => (UInt64.size - 1, none)

def exactSize (it : Iter α) : Option Nat :=
  if it.bounds.2 = some it.bounds.1 then some it.bounds.1 else none

@[simp] theorem exactSize_list (ahead : List α) : (list ahead).exactSize = some ahead.length := by
  simp [exactSize, bounds]

end Iter
end Replay
