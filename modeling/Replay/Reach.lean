import Replay.Manager

/-!
Reachability from the objects that are held. A source that can no longer be pulled or closed is dropped,
and a managed provider without a handle can no longer be acted on.
-/
namespace Replay

variable {α : Type}

/-- Feeds by number, and managed providers by the slots of their janitors. -/
structure Reach where
  feeds : List Nat := []
  managed : List Nat := []

namespace Reach

def union (r t : Reach) : Reach := ⟨r.feeds ++ t.feeds, r.managed ++ t.managed⟩

def unions (rs : List Reach) : Reach := rs.foldl union {}

end Reach

def Provider.reach : Provider → Reach
  | .base _ _ feed => { feeds := [feed] }
  | .managed slot _ _ inner => inner.reach.union { managed := [slot] }
  | .scripted _ _ inner => inner.reach

/-- A janitor drops its delegate on release. -/
def Janitor.reach (m : Store α) (j : Janitor) : Reach :=
  if (m.janitor j.slot).released then {} else j.delegate.reach

def Cursor.reach (m : Store α) : Cursor → Reach
  | .plain feed _ _ => { feeds := [feed] }
  | .managed janitor _ inner => (janitor.reach m).union (inner.reach m)
  | .watched _ _ inner => inner.reach m

def ManagerState.reach (t : ManagerState) : Reach :=
  Reach.unions (t.contexts.flatMap fun entry => entry.2.map Provider.reach)

namespace Store

/-- Adds what is reached through the chains of reached feeds below `feed`; these lead to older feeds. -/
def throughChains (m : Store α) : (feed : Nat) → Reach → Reach
  | 0, r => r
  | feed + 1, r =>
    let r :=
      if r.feeds.contains feed then
        match (m.feeds.source? feed).bind Source.cursor? with
        | some c => r.union (c.reach m)
        | none => r
      else r
    m.throughChains feed r

/-- Drops the unreachable sources below `feed`, the newest first. -/
def dropUnreached (w : Switches α) (r : Reach) : (feed : Nat) → Call α Unit
  | 0 => pure ()
  | feed + 1 => do
    if !r.feeds.contains feed then dropSource w feed
    dropUnreached w r feed

def retire (r : Reach) : Call α Unit :=
  modify fun m => { m with
    janitors := m.janitors.mapIdx fun slot t => { t with retired := !r.managed.contains slot } }

def settle (w : Switches α) (held : Reach) : Call α Unit := do
  let m ← get
  let feeds := m.feeds.cells.size
  let r := m.throughChains feeds held
  dropUnreached w r feeds
  retire r

end Store
end Replay
