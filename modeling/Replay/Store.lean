import Replay.Feeds
import Replay.Statistics

/-!
The mutable state of providers and cursors: feeds, flags of providers, counters of janitors, shared
statistics and the contexts of managers. All are reached by slots, which are never reused.
-/
namespace Replay

/-- The counter of open cursors and the flags of a janitor. `retired` says that the managed provider has
no handle left, `clipped` that the counter was decremented at zero. The tallies `closings` and
`releasings` are counted by the delegate at the entry of each call from this janitor, and `demands` by
the janitor when others call its release. -/
structure JanitorState where
  openCursors : Nat := 0
  clipped : Bool := false
  closed : Bool := false
  released : Bool := false
  retired : Bool := false
  closings : Nat := 0
  releasings : Nat := 0
  demands : Nat := 0

/-- The state at an unused slot: nothing is left to tear down or to count. -/
def JanitorState.void : JanitorState := { closed := true, released := true, clipped := true }

def JanitorState.countDown (t : JanitorState) : JanitorState :=
  { t with openCursors := t.openCursors - 1, clipped := t.clipped || t.openCursors == 0 }

/-- The number of calls to a scripted layer, and the managed provider it acts on. -/
structure ScriptState where
  opens : Nat := 0
  closes : Nat := 0
  releases : Nat := 0
  outer : Option Janitor := none

/-- The managed providers by context, contexts in order of creation. -/
structure ManagerState where
  config : Config
  statistics : Nat
  contexts : List (String × List Provider) := []

structure Store (α : Type) where
  feeds : Feeds α := {}
  closedBases : Array Bool := #[]
  janitors : Array JanitorState := #[]
  scripts : Array ScriptState := #[]
  statistics : Array Statistics := #[]
  managers : Array ManagerState := #[]
  nextProvider : Nat := 1

namespace Store

variable {α β γ : Type}

abbrev Call (α β : Type) := StateM (Store α) β

namespace Call

theorem run_pure (r : β) (m : Store α) : (pure r : Call α β).run m = (r, m) := rfl

theorem run_bind (f : Call α β) (g : β → Call α γ) (m : Store α) :
    (f >>= g).run m = (g (f.run m).1).run (f.run m).2 := rfl

theorem run_get (m : Store α) : (get : Call α (Store α)).run m = (m, m) := rfl

theorem run_modify (f : Store α → Store α) (m : Store α) :
    (modify f : Call α Unit).run m = ((), f m) := rfl

theorem run_modifyGet (f : Store α → β × Store α) (m : Store α) :
    (modifyGet f : Call α β).run m = f m := rfl

end Call

def note (e : Event) : Call α Unit := modify fun m => { m with feeds := m.feeds.note e }

def janitor (m : Store α) (slot : Nat) : JanitorState := m.janitors.getD slot .void

def script (m : Store α) (slot : Nat) : ScriptState := m.scripts.getD slot {}

def baseClosed (m : Store α) (slot : Nat) : Bool := m.closedBases.getD slot false

def statisticsAt (m : Store α) (slot : Nat) : Statistics := m.statistics.getD slot {}

def onFeeds (f : Feeds α → β × Feeds α) : Call α β := modifyGet fun m =>
  let (r, feeds) := f m.feeds
  (r, { m with feeds })

def onJanitor (slot : Nat) (f : JanitorState → JanitorState) : Call α Unit :=
  modify fun m => { m with janitors := m.janitors.modify slot f }

def onScript (slot : Nat) (f : ScriptState → ScriptState) : Call α Unit :=
  modify fun m => { m with scripts := m.scripts.modify slot f }

def onStatistics (slot : Nat) (f : Statistics → Statistics) : Call α Unit :=
  modify fun m => { m with statistics := m.statistics.modify slot f }

def closeBase (slot : Nat) : Call α Unit :=
  modify fun m => { m with closedBases := m.closedBases.setIfInBounds slot true }

def newProviderId : Call α ProviderId :=
  modifyGet fun m => (⟨m.nextProvider⟩, { m with nextProvider := m.nextProvider + 1 })

def newStatistics : Call α Nat :=
  modifyGet fun m => (m.statistics.size, { m with statistics := m.statistics.push {} })

/-- An upper bound for the closes and releases left: two for each janitor and one for each buffer. -/
def endings (m : Store α) : Nat := 2 * m.janitors.size + m.feeds.cells.size

end Store

namespace Provider

variable {α : Type}

/-- A layer other than a managed one is closed iff what it wraps is. -/
def isClosed (m : Store α) : Provider → Bool
  | base slot _ _ => m.baseClosed slot
  | managed slot _ _ _ => (m.janitor slot).closed
  | scripted _ _ inner => inner.isClosed m

end Provider
end Replay
