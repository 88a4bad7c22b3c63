import Replay.Error

/-!
`Items`, which stops at the first error, and `read`, which fills a slice. Items read before an error are
never lost; the error is returned by the next call.
-/
namespace Replay

structure Reader (α τ : Type) where
  step : τ → Outcome StreamError (Option α) × τ

/-- The state iterated over, and whether an error has ended the iteration. -/
structure Items (τ : Type) where
  rest : τ
  failed : Bool := false

namespace Items

variable {α τ : Type}

/-- The next item or an error; none at the end and after an error. -/
def next (r : Reader α τ) (it : Items τ) : Except Panic (Option (Except StreamError α)) × Items τ :=
  if it.failed then (.ok none, it)
  else
    match r.step it.rest with
    | (.ok (some a), rest) => (.ok (some (.ok a)), ⟨rest, false⟩)
    | (.ok none, rest) => (.ok none, ⟨rest, false⟩)
    | (.error (.error e), rest) => (.ok (some (.error e)), ⟨rest, true⟩)
    | (.error (.panic p), rest) => (.error p, ⟨rest, false⟩)

def take (r : Reader α τ) : (count : Nat) → Items τ →
    Except Panic (List (Option (Except StreamError α))) × Items τ
  | 0, it => (.ok [], it)
  | count + 1, it =>
    match it.next r with
    | (.error p, it) => (.error p, it)
    | (.ok entry, it) =>
      match take r count it with
      | (.error p, it) => (.error p, it)
      | (.ok entries, it) => (.ok (entry :: entries), it)

/-- The items up to the end or an error, at most `most`, appended to `got`. -/
def drain (r : Reader α τ) : (most : Nat) → (got : Array α) → Items τ →
    Except Panic (Array α × Option StreamError) × Items τ
  | 0, got, it => (.ok (got, none), it)
  | most + 1, got, it =>
    match it.next r with
    | (.ok (some (.ok a)), it) => drain r most (got.push a) it
    | (.ok (some (.error e)), it) => (.ok (got, some e), it)
    | (.ok none, it) => (.ok (got, none), it)
    | (.error p, it) => (.error p, it)

theorem next_of_failed {r : Reader α τ} {it : Items τ} (h : it.failed) :
    it.next r = (.ok none, it) := by
  simp [next, h]

end Items

namespace Reader

variable {α τ : Type}

/-- Reads up to `room` items. An error is returned only if it comes before all of them. -/
def fill (r : Reader α τ) : (room : Nat) → τ → Outcome StreamError (List α) × τ
  | 0, rest => (.ok [], rest)
  | room + 1, rest =>
    match r.step rest with
    | (.ok none, rest) => (.ok [], rest)
    | (.error stop, rest) => (.error stop, rest)
    | (.ok (some a), rest) =>
      match r.fill room rest with
      | (.ok more, rest) => (.ok (a :: more), rest)
      | (.error (.error _), rest) => (.ok [a], rest)
      | (.error (.panic p), rest) => (.panic p, rest)

end Reader
end Replay
