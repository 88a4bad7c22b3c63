import Replay.Error

/-!
Providers, which open cursors. A base provider reads one buffer; the others are layers around another
provider. The structure of a provider is an immutable tree; its state is in the store, under the slots
named in the tree. A scripted layer performs an act before and after each call that it passes on, to
inject failures.
-/
namespace Replay

inductive Ending where
  | close
  | release
  deriving DecidableEq

/-- An error to be raised later; that of a closed provider has a fresh id. -/
inductive ErrorCue where
  | fixed (e : StreamError)
  | providerClosed
  deriving DecidableEq

inductive Act where
  | pass
  | outer (ending : Ending)
  | panic (p : Panic)
  | fail (cue : ErrorCue)
  deriving DecidableEq

/-- The acts of a scripted layer around each call by its number, and around the release of a cursor it
wraps. A leaf presents itself as the innermost provider. -/
structure Script where
  onOpen : Nat → Act := fun _ => .pass
  afterOpen : Nat → Act := fun _ => .pass
  onClose : Nat → Act := fun _ => .pass
  afterClose : Nat → Act := fun _ => .pass
  onRelease : Nat → Act := fun _ => .pass
  afterRelease : Nat → Act := fun _ => .pass
  cursorRelease : Nat → Option Act := fun _ => none
  leaf : Bool := false

/-- How a managed provider wraps an inner cursor. -/
inductive Hook where
  | plain
  | raw
  | seek (position : Nat)
  | skip (count : Nat)
  | released
  | doubled
  deriving DecidableEq

inductive Provider where
  | base (slot : Nat) (id : ProviderId) (feed : Nat)
  | managed (slot statistics : Nat) (hook : Hook) (inner : Provider)
  | scripted (slot : Nat) (script : Script) (inner : Provider)

namespace Provider

/-- A layer has the id of what it wraps. -/
def id : Provider → ProviderId
  | base _ id _ => id
  | managed _ _ _ inner => inner.id
  | scripted _ _ inner => inner.id

/-- The provider directly inside a layer. -/
def wrapped? : Provider → Option Provider
  | base .. => none
  | managed _ _ _ inner => some inner
  | scripted _ script inner => if script.leaf then none else some inner

/-- The provider that wraps nothing, and the number of layers around it. -/
def innermost : Provider → Provider × Nat
  | base slot id feed => (base slot id feed, 0)
  | managed _ _ _ inner => (inner.innermost.1, inner.innermost.2 + 1)
  | scripted slot script inner =>
    if script.leaf then (scripted slot script inner, 0)
    else (inner.innermost.1, inner.innermost.2 + 1)

end Provider

/-- A janitor tears down one provider, its delegate, once that is closed and no cursor is open. -/
structure Janitor where
  slot : Nat
  statistics : Nat
  delegate : Provider

def Janitor.id (j : Janitor) : ProviderId := j.delegate.id

def Provider.janitor? : Provider → Option Janitor
  | .managed slot statistics _ inner => some ⟨slot, statistics, inner⟩
  | _ => none

end Replay
