import Replay.Store

/-!
Close, release and drop, which are mutually recursive: a provider that is released closes its buffer,
whose source closes a cursor, whose janitor releases another provider, and a scripted layer may call
back. Every cycle passes through one of three operations that take effect once: the close of a janitor,
the release of a janitor, the close of a buffer. These are the switches, which every function takes as
an argument, so that it recurs on its tree only; `switches n` allows for `n` nested ones. With none left
there is nothing to tear down, and they do nothing. Calls to a delegate and to `Source::close` are
counted by the callee.
-/
namespace Replay

open Store

structure Switches (α : Type) where
  close : Janitor → Call α Report
  release : Janitor → Call α Report
  closeBuffer : Nat → Call α (Outcome SourceError Unit)

variable {α : Type}

/-- The release of a janitor's provider on behalf of others. -/
def Switches.demand (w : Switches α) (j : Janitor) : Call α Report := do
  onJanitor j.slot fun t => { t with demands := t.demands + 1 }
  w.release j

/-- The error that a cue stands for. -/
def ErrorCue.make : ErrorCue → Call α StreamError
  | .fixed e => pure e
  | .providerClosed => return .providerClosed (← newProviderId)

/-- Closes or releases the provider that a scripted layer is bound to, if it has a handle. -/
def Switches.endOuter (w : Switches α) (slot : Nat) (ending : Ending) : Call α Unit := do
  match ((← get).script slot).outer with
  | none => pure ()
  | some outer =>
    if ((← get).janitor outer.slot).retired then pure ()
    else match ending with
      | .close => discard (w.close outer)
      | .release => discard (w.demand outer)

def Act.perform (w : Switches α) (slot : Nat) : Act → Call α (Outcome StreamError Unit)
  | .pass => pure (.ok ())
  | .outer ending => do
    w.endOuter slot ending
    return .ok ()
  | .panic p => pure (.panic p)
  | .fail cue => return .raise (← cue.make)

/-- Records the fault of a cleanup step, if there is one. -/
def Report.record (r : Report) (provider : ProviderId) (stage : Stage)
    (outcome : Outcome StreamError Unit) : Call α Report :=
  match outcome.complaint with
  | none => pure r
  | some detail => do
    let fault : Fault := ⟨provider, stage, detail⟩
    note (.faultSwallowed fault)
    return r.add fault

/-- Counts a call with the calling janitor, if it comes from one. -/
def Store.countCall (caller : Option Nat) (f : JanitorState → JanitorState) : Call α Unit :=
  match caller with
  | none => pure ()
  | some slot => onJanitor slot f

namespace Provider

/-- Opens no more cursors from here on. `caller` is the slot of the janitor that calls its delegate. -/
def close (w : Switches α) (caller : Option Nat) : Provider → Call α (Outcome StreamError Unit)
  | base slot id _ => do
    countCall caller fun t => { t with closings := t.closings + 1 }
    if (← get).baseClosed slot then pure ()
    else
      closeBase slot
      note (.providerClosed id)
    return .ok ()
  | managed slot statistics _ inner => do
    countCall caller fun t => { t with closings := t.closings + 1 }
    discard (w.close ⟨slot, statistics, inner⟩)
    return .ok ()
  | scripted slot script inner => do
    countCall caller fun t => { t with closings := t.closings + 1 }
    let call := ((← get).script slot).closes
    onScript slot fun t => { t with closes := t.closes + 1 }
    match ← (script.onClose call).perform w slot with
    | .error stop => return .error stop
    | .ok () =>
      match ← inner.close w none with
      | .error stop => return .error stop
      | .ok () => (script.afterClose call).perform w slot

def release (w : Switches α) (caller : Option Nat) : Provider → Call α (Outcome StreamError Unit)
  | base slot _ feed => do
    countCall caller fun t => { t with releasings := t.releasings + 1 }
    closeBase slot
    return (← w.closeBuffer feed).mapError .source
  | managed slot statistics _ inner => do
    countCall caller fun t => { t with releasings := t.releasings + 1 }
    discard (w.demand ⟨slot, statistics, inner⟩)
    return .ok ()
  | scripted slot script inner => do
    countCall caller fun t => { t with releasings := t.releasings + 1 }
    let call := ((← get).script slot).releases
    onScript slot fun t => { t with releases := t.releases + 1 }
    match ← (script.onRelease call).perform w slot with
    | .error stop => return .error stop
    | .ok () =>
      match ← inner.release w none with
      | .error stop => return .error stop
      | .ok () => (script.afterRelease call).perform w slot

end Provider

namespace Janitor

/-- Decrements the cursor count; the last cursor of a closed provider releases it. -/
def countOut (w : Switches α) (j : Janitor) (report : Report) : Call α Report := do
  let before := ((← get).janitor j.slot).openCursors
  onJanitor j.slot JanitorState.countDown
  if before ≤ 1 && ((← get).janitor j.slot).closed then
    return report.merge (← w.release j)
  else return report

/-- Releases a cursor by `step` and counts it out. -/
def releaseCursor (w : Switches α) (j : Janitor)
    (step : Call α (Outcome StreamError Unit × Cursor)) : Call α (Report × Cursor) := do
  if !((← get).janitor j.slot).released then
    onStatistics j.statistics (·.closeCursors 1)
  let (outcome, c) ← step
  let report ← Report.begun.record j.id .releaseCursor outcome
  return (← j.countOut w report, c)

end Janitor

namespace Cursor

def release (w : Switches α) : Cursor → Call α (Outcome StreamError Unit × Cursor)
  | plain feed provider head => pure (.ok (), plain feed provider head.release)
  | managed janitor released inner => do
    if released then return (.ok (), managed janitor true inner)
    let (_, inner) ← janitor.releaseCursor w (inner.release w)
    return (.ok (), managed janitor true inner)
  | watched slot act inner => do
    match ← act.perform w slot with
    | .error (.panic p) => return (.panic p, watched slot act inner)
    | _ =>
      let (outcome, inner) ← inner.release w
      return (outcome, watched slot act inner)

def close (w : Switches α) : Cursor → Call α Cursor
  | plain feed provider head => pure (plain feed provider head.close)
  | managed janitor released inner => do
    if released then return managed janitor true inner
    let inner ← inner.close w
    let (_, inner) ← janitor.releaseCursor w (inner.release w)
    return managed janitor true inner
  | watched slot act inner => return watched slot act (← inner.close w)

/-- Releases the outermost `layers` layers, each after the one around it. -/
def dropLayers (w : Switches α) : (layers : Nat) → Cursor → Call α Unit
  | 0, _ => pure ()
  | _, plain .. => pure ()
  | layers + 1, managed janitor released inner => do
    if released then inner.dropLayers w layers
    else
      let (_, inner) ← janitor.releaseCursor w (inner.release w)
      inner.dropLayers w layers
  | layers + 1, watched _ _ inner => inner.dropLayers w layers

/-- A managed cursor that is not yet released is released. -/
def drop (w : Switches α) (c : Cursor) : Call α Unit := c.dropLayers w c.depth

end Cursor

namespace Source

/-- Closes the source of a feed, and counts the call. -/
def close (w : Switches α) (feed : Nat) (source : Source α) :
    Call α (Outcome SourceError Unit × Source α) := do
  modify fun m =>
    { m with feeds := m.feeds.count feed fun t => { t with closes := t.closes + 1 } }
  match source with
  | iterator _ => return (.ok (), iterator none)
  | script outcomes pulled hint closing => return (closing, script outcomes pulled hint closing)
  | bytes source item => return (.ok (), bytes source.close item)
  | chain c => return (.ok (), chain (← c.close w))

def drop (w : Switches α) : Source α → Call α Unit
  | chain c => c.drop w
  | _ => pure ()

end Source

namespace Store

def closeSource (w : Switches α) (feed : Nat) : Call α (Outcome SourceError Unit) := do
  match (← get).feeds.source? feed with
  | none => return .ok ()
  | some source =>
    let (outcome, source) ← source.close w feed
    modify fun m => { m with feeds := m.feeds.setSource feed (some source) }
    return outcome

def dropSource (w : Switches α) (feed : Nat) : Call α Unit := do
  match (← get).feeds.source? feed with
  | none => pure ()
  | some source =>
    modify fun m => { m with feeds := m.feeds.setSource feed none }
    source.drop w

/-- Publishes no bucket any more and drops the source, closing it if it is owned. -/
def closeBuffer (w : Switches α) (feed : Nat) : Call α (Outcome SourceError Unit) := do
  match (← get).feeds.buffer? feed with
  | none => return .ok ()
  | some b =>
    if b.closed then return .ok ()
    modify fun m => { m with feeds := m.feeds.setBuffer feed (some b.close) }
    note (.bufferClosed b.consumed b.ownership)
    let outcome ← match b.ownership with
      | .owned => closeSource w feed
      | .borrowed => pure (.ok ())
    dropSource w feed
    return outcome

end Store

namespace Janitor

def closeDelegate (w : Switches α) (j : Janitor) : Call α Report := do
  let report ← Report.begun.record j.id .closeProvider (← j.delegate.close w (some j.slot))
  onStatistics j.statistics (·.closeProvider)
  note (.managedProviderClosed j.id)
  return report

/-- Releases the delegate, subtracts the open cursors from the statistics and logs the release. -/
def releaseDelegate (w : Switches α) (j : Janitor) (report : Report) : Call α Report := do
  let report ← report.record j.id .releaseProvider (← j.delegate.release w (some j.slot))
  let outstanding := ((← get).janitor j.slot).openCursors
  onStatistics j.statistics (·.closeCursors outstanding)
  note (.resourcesReleased j.id outstanding report.faults.length)
  return report

/-- Closes the delegate, and releases it if no cursor is open. -/
def close (w : Switches α) (j : Janitor) : Call α Report := do
  if ((← get).janitor j.slot).closed then return .skipped
  onJanitor j.slot fun t => { t with closed := true }
  let report ← j.closeDelegate w
  if ((← get).janitor j.slot).openCursors = 0 then
    return report.merge (← w.release j)
  else return report

/-- Closes the delegate unless it is closed, and releases it. -/
def release (w : Switches α) (j : Janitor) : Call α Report := do
  if ((← get).janitor j.slot).released then return .skipped
  onJanitor j.slot fun t => { t with released := true }
  let report ← w.close j
  j.releaseDelegate w (Report.begun.merge report)

end Janitor

def switches : (left : Nat) → Switches α
  | 0 =>
    { close := fun _ => pure .skipped
      release := fun _ => pure .skipped
      closeBuffer := fun _ => pure (.ok ()) }
  | left + 1 =>
    let w := switches left
    { close := Janitor.close w, release := Janitor.release w, closeBuffer := Store.closeBuffer w }

/-- Runs a call with as many switches as the store can use. -/
def withSwitches {β : Type} (f : Switches α → Call α β) : Call α β := do
  f (switches (← get).endings)

end Replay
