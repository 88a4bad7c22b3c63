import Replay.Buffer
import Replay.Reader

/-!
A head is the reading position of one reader. It caches the bucket it read last and reads from it,
without asking the buffer, while the bucket has the slot.
-/
namespace Replay

structure Head where
  position : Nat := 0
  cached : Option Nat := none
  released : Bool := false
  closed : Bool := false
  deriving DecidableEq

namespace Head

variable {α σ : Type}

/-- Forgets the cached bucket; reading stays possible. -/
def release (h : Head) : Head := { h with cached := none, released := true }

def close (h : Head) : Head := { h with cached := none, closed := true }

def seek (h : Head) (position : Nat) : Except StreamError Head :=
  if h.closed then .error .cursorClosed else .ok { h with position }

@[simp] theorem position_release (h : Head) : h.release.position = h.position := rfl

@[simp] theorem position_close (h : Head) : h.close.position = h.position := rfl

def hasNext (tap : Tap α σ) (h : Head) (b : Buffer α) (s : σ) :
    Outcome StreamError Bool × Buffer α × σ :=
  if h.closed then (.raise .cursorClosed, b, s) else b.hasNext tap h.position s

/-- The item at the position from the cached bucket, if that has the slot. -/
def remembered (h : Head) (b : Buffer α) : Option (Option α) := do
  let held ← h.cached
  let at' ← b.layout.locate h.position
  let bucket ← b.bucket? held
  if bucket.contains at' then some (bucket.get? at'.item) else none

/-- A slot within a bucket must not be empty. -/
def present (h : Head) : Option α → Outcome StreamError α
  | some a => .ok a
  | none => .raise (.missingItem h.position)

def lookUp (tap : Tap α σ) (h : Head) (b : Buffer α) (s : σ) :
    Outcome StreamError α × Head × Buffer α × σ :=
  match b.bucketFor tap h.position s with
  | (.error stop, b, s) => (.error stop, h, b, s)
  | (.ok none, b, s) => (.raise (.endOfData h.position), h, b, s)
  | (.ok (some held), b, s) =>
    (h.present ((b.layout.locate h.position).bind (b.item? held)), { h with cached := held }, b, s)

/-- The item at the position, from the cached bucket if possible. -/
def readAt (tap : Tap α σ) (h : Head) (b : Buffer α) (s : σ) :
    Outcome StreamError α × Head × Buffer α × σ :=
  match h.remembered b with
  | some item => (h.present item, h, b, s)
  | none => h.lookUp tap b s

def next (tap : Tap α σ) (h : Head) (b : Buffer α) (s : σ) :
    Outcome StreamError α × Head × Buffer α × σ :=
  if h.closed then (.raise .cursorClosed, h, b, s)
  else
    match b.refusal with
    | some e => (.raise e, h, b, s)
    | none =>
      match h.readAt tap b s with
      | (.ok a, h, b, s) => (.ok a, { h with position := h.position + 1 }, b, s)
      | (.error stop, h, b, s) => (.error stop, h, b, s)

def step (tap : Tap α σ) (h : Head) (b : Buffer α) (s : σ) :
    Outcome StreamError (Option α) × Head × Buffer α × σ :=
  match h.hasNext tap b s with
  | (.ok true, b, s) =>
    let (r, h, b, s) := h.next tap b s
    (r.map some, h, b, s)
  | (.ok false, b, s) => (.ok none, h, b, s)
  | (.error stop, b, s) => (.error stop, h, b, s)

def reader (tap : Tap α σ) : Reader α (Head × Buffer α × σ) := ⟨fun (h, b, s) => h.step tap b s⟩

end Head
end Replay
