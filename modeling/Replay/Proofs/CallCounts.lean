import Replay.Teardown

/-!
`Provider.close`, `Provider.release` and `Source.close` count their own calls. The equations here move
the count to the front of the call, so that the rest can be reasoned about without it.
-/
namespace Replay

open Store

variable {α : Type}

namespace ScriptState

def calls (t : ScriptState) : Ending → Nat
  | .close => t.closes
  | .release => t.releases

def call (t : ScriptState) : Ending → ScriptState
  | .close => { t with closes := t.closes + 1 }
  | .release => { t with releases := t.releases + 1 }

theorem outer_call (t : ScriptState) (ending : Ending) : (t.call ending).outer = t.outer := by
  cases ending with
  | close => rfl
  | release => rfl

theorem calls_call (t : ScriptState) (ending other : Ending) :
    t.calls other ≤ (t.call ending).calls other := by
  cases ending with
  | close =>
    cases other with
    | close => exact Nat.le_succ _
    | release => exact Nat.le_refl _
  | release =>
    cases other with
    | close => exact Nat.le_refl _
    | release => exact Nat.le_succ _

end ScriptState

/-- The flag that a janitor sets when it closes or releases. -/
def JanitorState.past (t : JanitorState) : Ending → Bool
  | .close => t.closed
  | .release => t.released

theorem Provider.close_base (w : Switches α) (slot : Nat) (id : ProviderId) (feed : Nat) :
    (base slot id feed).close w none = (do
      if (← get).baseClosed slot then pure ()
      else
        closeBase slot
        note (.providerClosed id)
      return .ok ()) := rfl

theorem Provider.close_scripted (w : Switches α) (slot : Nat) (script : Script) (inner : Provider) :
    (scripted slot script inner).close w none = (do
      let call := ((← get).script slot).closes
      onScript slot (·.call .close)
      match ← (script.onClose call).perform w slot with
      | .error stop => return .error stop
      | .ok () =>
        match ← inner.close w none with
        | .error stop => return .error stop
        | .ok () => (script.afterClose call).perform w slot) := rfl

theorem Provider.release_scripted (w : Switches α) (slot : Nat) (script : Script) (inner : Provider) :
    (scripted slot script inner).release w none = (do
      let call := ((← get).script slot).releases
      onScript slot (·.call .release)
      match ← (script.onRelease call).perform w slot with
      | .error stop => return .error stop
      | .ok () =>
        match ← inner.release w none with
        | .error stop => return .error stop
        | .ok () => (script.afterRelease call).perform w slot) := rfl

theorem Provider.close_some (w : Switches α) (caller : Nat) (p : Provider) :
    p.close w (some caller) = (do
      onJanitor caller fun t => { t with closings := t.closings + 1 }
      p.close w none) := by
  cases p with
  | base => rfl
  | managed => rfl
  | scripted => rfl

theorem Provider.release_some (w : Switches α) (caller : Nat) (p : Provider) :
    p.release w (some caller) = (do
      onJanitor caller fun t => { t with releasings := t.releasings + 1 }
      p.release w none) := by
  cases p with
  | base => rfl
  | managed => rfl
  | scripted => rfl

theorem Janitor.closeDelegate_eq (w : Switches α) (j : Janitor) : j.closeDelegate w = (do
    onJanitor j.slot fun t => { t with closings := t.closings + 1 }
    let report ← Report.begun.record j.id .closeProvider (← j.delegate.close w none)
    onStatistics j.statistics (·.closeProvider)
    note (.managedProviderClosed j.id)
    return report) := by
  rw [closeDelegate, Provider.close_some]
  rfl

theorem Janitor.releaseDelegate_eq (w : Switches α) (j : Janitor) (report : Report) :
    j.releaseDelegate w report = (do
      onJanitor j.slot fun t => { t with releasings := t.releasings + 1 }
      let report ← report.record j.id .releaseProvider (← j.delegate.release w none)
      let outstanding := ((← get).janitor j.slot).openCursors
      onStatistics j.statistics (·.closeCursors outstanding)
      note (.resourcesReleased j.id outstanding report.faults.length)
      return report) := by
  rw [releaseDelegate, Provider.release_some]
  rfl

/-- `Source.close` without its count. -/
def Source.closeUncounted (w : Switches α) : Source α → Call α (Outcome SourceError Unit × Source α)
  | iterator _ => pure (.ok (), iterator none)
  | script outcomes pulled hint closing => pure (closing, script outcomes pulled hint closing)
  | bytes source item => pure (.ok (), bytes source.close item)
  | chain c => return (.ok (), chain (← c.close w))

theorem Source.close_eq (w : Switches α) (feed : Nat) (source : Source α) : source.close w feed = (do
    modify fun m =>
      { m with feeds := m.feeds.count feed fun t => { t with closes := t.closes + 1 } }
    source.closeUncounted w) := by
  cases source with
  | iterator => rfl
  | script => rfl
  | bytes => rfl
  | chain => rfl

end Replay
