import Replay.Head
import Replay.Provider

/-!
Cursors. A plain cursor is a head on a buffer. A managed one reports its release to its janitor, once. A
watched one runs the act of a scripted layer before it is released.
-/
namespace Replay

inductive Cursor where
  | plain (feed : Nat) (provider : ProviderId) (head : Head)
  | managed (janitor : Janitor) (released : Bool) (inner : Cursor)
  | watched (slot : Nat) (act : Act) (inner : Cursor)

namespace Cursor

def position : Cursor → Nat
  | plain _ _ head => head.position
  | managed _ _ inner => inner.position
  | watched _ _ inner => inner.position

def isReleased : Cursor → Bool
  | plain _ _ head => head.released
  | managed _ released _ => released
  | watched _ _ inner => inner.isReleased

def isClosed : Cursor → Bool
  | plain _ _ head => head.closed
  | managed _ _ inner => inner.isClosed
  | watched _ _ inner => inner.isClosed

def provider : Cursor → ProviderId
  | plain _ provider _ => provider
  | managed _ _ inner => inner.provider
  | watched _ _ inner => inner.provider

def feed : Cursor → Nat
  | plain feed _ _ => feed
  | managed _ _ inner => inner.feed
  | watched _ _ inner => inner.feed

def depth : Cursor → Nat
  | plain .. => 0
  | managed _ _ inner => inner.depth + 1
  | watched _ _ inner => inner.depth + 1

/-- The position need not be readable. -/
def seek (position : Nat) : Cursor → Except StreamError Cursor
  | plain feed provider head => (head.seek position).map (plain feed provider)
  | managed janitor released inner =>
    if released then .error .cursorReleased
    else (inner.seek position).map (managed janitor false)
  | watched slot act inner => (inner.seek position).map (watched slot act)

theorem seek_position {c d : Cursor} {p : Nat} (h : c.seek p = .ok d) : d.position = p := by
  induction c generalizing d with
  | plain feed provider head =>
    unfold seek Head.seek at h
    split at h <;> simp_all [Except.map]
    cases h; rfl
  | managed janitor released inner ih =>
    unfold seek at h
    split at h
    · cases h
    · cases hi : inner.seek p <;> simp_all [Except.map]
      cases h; exact ih
  | watched slot act inner ih =>
    unfold seek at h
    cases hi : inner.seek p <;> simp_all [Except.map]
    cases h; exact ih

end Cursor
end Replay
