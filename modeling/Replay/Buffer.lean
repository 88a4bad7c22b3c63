import Replay.Bucket
import Replay.Tap

/-!
The buffer of a source that can be read only once. Items are pulled one at a time, on demand, and stored
in buckets, so that they can be read again at any offset. A buffer that may not grow, or holds more than
its limit, fails, and then returns the same error to every reader. Allocation is assumed to succeed for
every capacity: neither memory that runs out nor a capacity past the addressable range, at which an
allocation would panic, is modelled.
-/
namespace Replay

/-- Why a buffer failed. -/
inductive Failure where
  | sizeExceeded (limit : Nat)
  | growthDisabled (capacity : Nat)
  deriving DecidableEq

def Failure.error : Failure → StreamError
  | .sizeExceeded limit => .bufferSizeExceeded limit
  | .growthDisabled capacity => .bufferGrowthDisabled capacity

/-- `buckets` has every bucket ever allocated, indexed by its handle; `published` and `current` are the
handles of the published buckets and of the one being filled. A closed buffer has neither. -/
structure Buffer (α : Type) where
  layout : Layout
  limit : Limit
  ownership : Ownership
  hint : Option Nat
  buckets : Array (Bucket α) := #[]
  published : Array Nat := #[]
  current : Option Nat := none
  consumed : Nat := 0
  exhausted : Bool := false
  failure : Option Failure := none
  closed : Bool := false

namespace Buffer

variable {α σ : Type}

/-- `hint` is the size hint of the source. -/
def ofConfig (c : Config) (hint : Option Nat) : Except StreamError (Buffer α) :=
  c.validate.map fun _ =>
    { layout := ⟨c.initial, c.increment⟩, limit := c.limit, ownership := c.ownership, hint }

def bucket? (b : Buffer α) (held : Nat) : Option (Bucket α) := b.buckets[held]?

def filling? (b : Buffer α) : Option (Bucket α) := b.current.bind b.bucket?

def isClosed (b : Buffer α) : Bool := b.closed || b.failure.isSome

/-- After exhaustion the number of items, before it the size hint. -/
def size (b : Buffer α) : Option Nat := if b.exhausted then some b.consumed else b.hint

/-- The error returned to readers. A failure takes precedence over close. -/
def refusal (b : Buffer α) : Option StreamError :=
  match b.failure with
  | some f => some f.error
  | none => if b.closed then some .bufferClosed else none

/-- Fails the buffer; the first failure stays. -/
def fail (b : Buffer α) (f : Failure) : StreamError × Buffer α :=
  match b.failure with
  | some first => (first.error, b)
  | none => (f.error, { b with failure := some f })

def nextIndex (b : Buffer α) : Nat :=
  match b.filling? with
  | some k => k.index + 1
  | none => 0

def allocate (b : Buffer α) : Buffer α :=
  { b with
    buckets := b.buckets.push ⟨b.nextIndex, b.layout.capacity b.nextIndex, #[]⟩
    published := b.published.push b.buckets.size
    current := some b.buckets.size }

/-- Without an increment only the first bucket may be allocated. -/
def extend (tap : Tap α σ) (b : Buffer α) (s : σ) : Option StreamError × Buffer α × σ :=
  if 0 < b.nextIndex ∧ !b.layout.grows then
    let s := tap.note (.growthRefused b.layout.initial) s
    let (e, b) := b.fail (.growthDisabled b.layout.initial)
    (some e, b, s)
  else
    let index := b.nextIndex
    (none, b.allocate, tap.note (.bucketAllocated index (b.layout.capacity index)) s)

def hasRoom (b : Buffer α) : Bool := b.filling?.any fun k => !k.isFull

/-- Ensures that the current bucket has a free slot. -/
def makeRoom (tap : Tap α σ) (b : Buffer α) (s : σ) : Option StreamError × Buffer α × σ :=
  if b.hasRoom then (none, b, s) else b.extend tap s

def store (b : Buffer α) (a : α) : Buffer α :=
  { b with
    buckets := match b.current with
      | some held => b.buckets.modify held (·.push a)
      | none => b.buckets
    consumed := b.consumed + 1 }

/-- Stores an item in the current bucket. The limit is checked afterwards, so a buffer that exceeds it
holds one item more. -/
def keep (tap : Tap α σ) (b : Buffer α) (a : α) (s : σ) : Option StreamError × Buffer α × σ :=
  if b.hasRoom then
    let b := b.store a
    match b.limit.count? with
    | some limit =>
      if limit < b.consumed then
        let s := tap.note (.sizeExceeded limit) s
        let (e, b) := b.fail (.sizeExceeded limit)
        (some e, b, s)
      else (none, b, s)
    | none => (none, b, s)
  else (some (.missingItem b.consumed), b, s)

def append (tap : Tap α σ) (b : Buffer α) (a : α) (s : σ) : Option StreamError × Buffer α × σ :=
  match b.makeRoom tap s with
  | (some e, b, s) => (some e, b, s)
  | (none, b, s) => b.keep tap a s

/-- Pulls up to `n` items; true if all of them came. -/
def fill (tap : Tap α σ) : Nat → Buffer α → σ → Outcome StreamError Bool × Buffer α × σ
  | 0, b, s => (.ok true, b, s)
  | n + 1, b, s =>
    if b.exhausted then (.ok false, b, s)
    else
      match tap.pull s with
      | (.item a, s) =>
        match b.append tap a s with
        | (some e, b, s) => (.raise e, b, s)
        | (none, b, s) => fill tap n b s
      | (.finished, s) =>
        let total := b.consumed
        (.ok false, { b with exhausted := true }, tap.note (.sourceExhausted total) s)
      | (.failed e, s) => (.raise (.source e), b, s)
      | (.panicked p, s) => (.panic p, b, s)

/-- Whether there is an item at the offset, pulling as far as needed. -/
def hasNext (tap : Tap α σ) (offset : Nat) (b : Buffer α) (s : σ) :
    Outcome StreamError Bool × Buffer α × σ :=
  match b.refusal with
  | some e => (.raise e, b, s)
  | none => b.fill tap (offset + 1 - b.consumed) s

def shown? (b : Buffer α) (p : Position) : Option Nat :=
  b.published[p.bucket]?.filter fun held => (b.bucket? held).any (·.contains p)

/-- The handle of the bucket of an offset; none if the source ends before it. -/
def bucketFor (tap : Tap α σ) (offset : Nat) (b : Buffer α) (s : σ) :
    Outcome StreamError (Option Nat) × Buffer α × σ :=
  match b.hasNext tap offset s with
  | (.error stop, b, s) => (.error stop, b, s)
  | (.ok false, b, s) => (.ok none, b, s)
  | (.ok true, b, s) =>
    match b.layout.locate offset with
    | none =>
      let (e, b) := b.fail (.growthDisabled b.layout.initial)
      (.raise e, b, s)
    | some at' =>
      match b.shown? at' with
      | some held => (.ok (some held), b, s)
      | none => (.raise (b.refusal.getD (.missingItem offset)), b, s)

/-- Publishes no bucket any more; `consumed` stays. -/
def close (b : Buffer α) : Buffer α :=
  { b with published := #[], current := none, closed := true }

theorem refusal_eq_none_iff {b : Buffer α} : b.refusal = none ↔ b.isClosed = false := by
  unfold refusal isClosed
  cases b.failure <;> simp

/-- A failure is reported even after close. -/
theorem refusal_close (b : Buffer α) : b.close.refusal = some (b.refusal.getD .bufferClosed) := by
  unfold refusal close
  cases b.failure with
  | none => cases b.closed <;> rfl
  | some f => rfl

@[simp] theorem published_close (b : Buffer α) : b.close.published = #[] := rfl

@[simp] theorem size_close (b : Buffer α) : b.close.size = b.size := rfl

def item? (b : Buffer α) (held : Nat) (p : Position) : Option α :=
  (b.bucket? held).bind fun k => k.get? p.item

end Buffer
end Replay
