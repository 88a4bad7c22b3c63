import Replay.Opening

/-!
Managers create providers on behalf of contexts, and release the remaining ones when the context
completes. A completed context can be used again.
-/
namespace Replay

open Store

variable {α : Type}

namespace Store

def addManaged (statistics : Nat) (hook : Hook) (inner : Provider) : Call α Provider := do
  onStatistics statistics (·.openProvider)
  modifyGet fun m =>
    (.managed m.janitors.size statistics hook inner, { m with janitors := m.janitors.push {} })

/-- A janitor whose count starts at `openCursors`, without a change of the statistics. -/
def addJanitor (statistics : Nat) (openCursors : Nat) (delegate : Provider) : Call α Janitor :=
  modifyGet fun m =>
    (⟨m.janitors.size, statistics, delegate⟩,
      { m with janitors := m.janitors.push { openCursors } })

def addScripted (script : Script) (inner : Provider) : Call α Provider :=
  modifyGet fun m =>
    (.scripted m.scripts.size script inner, { m with scripts := m.scripts.push {} })

/-- Binds a scripted layer to the managed provider it acts on; the first binding stays. -/
def bindOuter (slot : Nat) (outer : Janitor) : Call α Unit :=
  onScript slot fun t => { t with outer := t.outer <|> some outer }

def addSource (source : Source α) : Call α Nat := onFeeds fun s => s.add source

/-- A buffer over the source of a feed, which is dropped if the configuration is invalid. -/
def addBuffer (w : Switches α) (config : Config) (feed : Nat) :
    Call α (Except StreamError Unit) := do
  let s := (← get).feeds
  match Buffer.ofConfig config ((s.source? feed).bind s.announced) with
  | .error e =>
    dropSource w feed
    return .error e
  | .ok b =>
    modify fun m => { m with feeds := m.feeds.setBuffer feed (some b) }
    return .ok ()

def addBase (feed : Nat) : Call α Provider := do
  let id ← newProviderId
  modifyGet fun m =>
    (.base m.closedBases.size id feed, { m with closedBases := m.closedBases.push false })

def manager? (m : Store α) (slot : Nat) : Option ManagerState := m.managers[slot]?

def onManager (slot : Nat) (f : ManagerState → ManagerState) : Call α Unit :=
  modify fun m => { m with managers := m.managers.modify slot f }

def addManager (config : Config) : Call α (Except StreamError Nat) :=
  match config.validate with
  | .error e => pure (.error e)
  | .ok () => do
    let statistics ← newStatistics
    modifyGet fun m =>
      (.ok m.managers.size, { m with managers := m.managers.push { config, statistics } })

@[simp] theorem feeds_addManager (config : Config) (m : Store α) :
    ((addManager config).run m).2.feeds = m.feeds := by
  unfold addManager
  split
  · rfl
  · rfl

@[simp] theorem janitors_addManager (config : Config) (m : Store α) :
    ((addManager config).run m).2.janitors = m.janitors := by
  unfold addManager
  split
  · rfl
  · rfl

end Store

namespace ManagerState

def providersIn (t : ManagerState) (context : String) : List Provider :=
  (t.contexts.lookup context).getD []

/-- Lists a provider under its context, and removes the released ones of that context. -/
def register (t : ManagerState) (released : Provider → Bool) (context : String) (p : Provider) :
    ManagerState :=
  if (t.contexts.lookup context).isSome then
    { t with contexts := t.contexts.map fun entry =>
        if entry.1 = context then (context, entry.2.filter (fun q => !released q) ++ [p])
        else entry }
  else { t with contexts := t.contexts ++ [(context, [p])] }

def forget (t : ManagerState) (context : String) : ManagerState :=
  { t with contexts := t.contexts.filter fun entry => entry.1 ≠ context }

end ManagerState

def Provider.isReleased (m : Store α) : Provider → Bool
  | .managed slot _ _ _ => (m.janitor slot).released
  | _ => false

namespace Manager

def manageProvider (slot : Nat) (inner : Provider) (context : String) :
    Call α (Option Provider) := do
  match (← get).manager? slot with
  | none => return none
  | some t =>
    let p ← addManaged t.statistics .plain inner
    note (.providerRegistered p.id context)
    let m ← get
    onManager slot fun t => t.register (Provider.isReleased m) context p
    return some p

def manage (w : Switches α) (slot : Nat) (feed : Nat) (context : String) :
    Call α (Except StreamError (Option Provider)) := do
  match (← get).manager? slot with
  | none => return .ok none
  | some t =>
    match ← addBuffer w t.config feed with
    | .error e => return .error e
    | .ok () =>
      let base ← addBase feed
      return .ok (← manageProvider slot base context)

def releaseAll (w : Switches α) : List Provider → Report → Call α Report
  | [], report => pure report
  | p :: rest, report => do
    let done ← match p.janitor? with
      | some j => w.demand j
      | none => pure .skipped
    releaseAll w rest (report.merge done)

/-- Completes a context: every provider listed under it is released. -/
def complete (w : Switches α) (slot : Nat) (context : String) : Call α Report := do
  match (← get).manager? slot with
  | none => return .skipped
  | some t =>
    match t.contexts.lookup context with
    | none => return .skipped
    | some providers =>
      onManager slot (·.forget context)
      let report ← releaseAll w providers .skipped
      note (.contextCompleted context providers.length report.faults.length)
      return report

def completeAll (w : Switches α) (slot : Nat) : List String → Report → Call α Report
  | [], report => pure report
  | context :: rest, report => do
    let done ← complete w slot context
    completeAll w slot rest (report.merge done)

def dispose (w : Switches α) (slot : Nat) : Call α Report := do
  match (← get).manager? slot with
  | none => return .skipped
  | some t => completeAll w slot (t.contexts.map (·.1)) .skipped

end Manager
end Replay
