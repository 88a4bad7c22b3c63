import Replay.Session.Reading

/-!
The commands on providers, janitors, managers and reports.
-/
namespace Replay.Session

variable {α : Type}

def makeProvider (name : String) (config : Except Config.ReadError Config) (plan : SourcePlan α) :
    Step α (Answer α) := do
  match ← buildBuffer config plan with
  | .error answer => return answer
  | .ok feed =>
    assign name (.provider (← call (Store.addBase feed)))
    return .done

def makeProviderOver (name buffer : String) : Step α (Answer α) := do
  match (← get).bufferFeed? buffer with
  | none => return .refused
  | some feed =>
    assign name (.provider (← call (Store.addBase feed)))
    return .done

def makeManaged (name provider statistics : String) (hook : Hook) : Step α (Answer α) := do
  match (← get).provider? provider with
  | none => return .refused
  | some inner =>
    let statistics ← statisticsOf statistics
    assign name (.provider (← call (Store.addManaged statistics hook inner)))
    return .done

def makeJanitor (name provider : String) (openCursors : Nat) (statistics : String) :
    Step α (Answer α) := do
  match (← get).provider? provider with
  | none => return .refused
  | some delegate =>
    let statistics ← statisticsOf statistics
    assign name (.janitor (← call (Store.addJanitor statistics openCursors delegate)))
    return .done

def makeScripted (name provider : String) (script : Script) : Step α (Answer α) := do
  match (← get).provider? provider with
  | none => return .refused
  | some inner =>
    assign name (.provider (← call (Store.addScripted script inner)))
    return .done

def bindOuter (on outer : String) : Step α (Answer α) := do
  let s ← get
  match s.provider? on, s.janitor? outer with
  | some (.scripted slot _ _), some j =>
    call (Store.bindOuter slot j)
    return .done
  | _, _ => return .refused

/-- Closes or releases; the answer has what the report does not. -/
def endProvider (on : String) (ending : Ending) : Step α (Answer α) := do
  match (← get).find? on with
  | some (.provider p) =>
    let outcome ← callWith fun w => match ending with
      | .close => p.close w none
      | .release => p.release w none
    return .ofOutcome (fun _ => .done) outcome
  | some (.janitor j) =>
    discard (callWith fun w => match ending with
      | .close => w.close j
      | .release => w.demand j)
    return .done
  | _ => return .refused

def endReported (on : String) (ending : Ending) (name : Option String) : Step α (Answer α) := do
  match (← get).janitor? on with
  | none => return .refused
  | some j =>
    let report ← callWith fun w => match ending with
      | .close => w.close j
      | .release => w.demand j
    assign? name (.report report)
    return .report report

def layers (on : String) : Step α (Answer α) := do
  let s ← get
  match s.provider? on with
  | none => return .refused
  | some p =>
    let (inner, decorators) := p.innermost
    return .layers decorators inner.id (inner.isClosed s.store) inner.wrapped?.isNone

def showStatistics (name : String) : Step α (Answer α) := do
  let t := (← get).store.statisticsAt (← statisticsOf name)
  return .statistics t (Inspect.statistics t)

def makeManager (name : String) (config : Except Config.ReadError Config) : Step α (Answer α) := do
  match config with
  | .error e => return .configError e
  | .ok config =>
    match ← call (Store.addManager config) with
    | .error e => return .error e
    | .ok slot =>
      assign name (.manager slot)
      return .done

def makeGuard (on name context : String) : Step α (Answer α) := do
  match (← get).manager? on with
  | none => return .refused
  | some slot =>
    assign name (.guard slot context)
    return .done

/-- A guard manages for its own context. -/
def manage (on name : String) (context : Option String) (plan : SourcePlan α) :
    Step α (Answer α) := do
  let s ← get
  let context := match s.find? on, context with
    | some (.guard _ own), none => some own
    | _, context => context
  match s.manager? on, context with
  | some slot, some context =>
    match ← build plan with
    | none => return .refused
    | some feed =>
      match ← callWith fun w => Manager.manage w slot feed context with
      | .error e => return .error e
      | .ok none => return .refused
      | .ok (some p) =>
        assign name (.provider p)
        return .done
  | _, _ => return .refused

def manageProvider (on name provider context : String) : Step α (Answer α) := do
  let s ← get
  match s.manager? on, s.provider? provider with
  | some slot, some inner =>
    match ← call (Manager.manageProvider slot inner context) with
    | none => return .refused
    | some p =>
      assign name (.provider p)
      return .done
  | _, _ => return .refused

def complete (on context : String) (name : Option String) : Step α (Answer α) := do
  match (← get).manager? on with
  | none => return .refused
  | some slot =>
    let report ← callWith fun w => Manager.complete w slot context
    assign? name (.report report)
    return .report report

def dispose (on : String) : Step α (Answer α) := do
  match (← get).manager? on with
  | none => return .refused
  | some slot => return .report (← callWith fun w => Manager.dispose w slot).sorted

def askManager (on : String) (f : ManagerState → Answer α) : Step α (Answer α) := do
  let s ← get
  return (((s.manager? on).bind s.store.manager?).map f).getD .refused

def providersIn (on context : String) : Step α (Answer α) :=
  askManager on fun t => .count (t.providersIn context).length

def managerConfig (on : String) : Step α (Answer α) := askManager on fun t => .config t.config

def makeReport (name : String) : Step α (Answer α) := do
  assign name (.report .skipped)
  return .done

/-- Merges two reports; the answer says whether they were equal. -/
def mergeReports (on other : String) : Step α (Answer α) := do
  let s ← get
  match s.report? on, s.report? other with
  | some r, some t =>
    put on (.report (r.merge t))
    return .wereEqual (decide (r = t))
  | _, _ => return .refused

def inspect (on : String) : Step α (Answer α) := do
  let s ← get
  let shown := match s.find? on with
    | some (.buffer feed) => (s.store.feeds.buffer? feed).map Inspect.buffer
    | some (.bucket feed held) => (Object.bucketAt? s.store feed held).map Inspect.bucket
    | some (.cursor c) => some (Inspect.cursor c)
    | some (.provider p) => p.janitor?.map (Inspect.managedProvider s.store)
    | some (.janitor j) => some (Inspect.janitor s.store j)
    | some (.manager slot) => (s.store.manager? slot).map (Inspect.manager s.store)
    | _ => none
  return (shown.map Answer.text).getD .refused

def showView (on : String) : Step α (Answer α) := do
  return (((← get).view on).map Answer.view).getD .refused

/-- Opens a cursor, reads all items and releases the cursor. -/
def readAll (p : Provider) : Step α (Except (Answer α) (Except StreamError (Drained α))) := do
  match ← callWith fun w => p.openCursor w with
  | .error (.error e) => return .ok (.error e)
  | .error (.panic p) => return .error (.panic p)
  | .ok c =>
    let (d, c) ← drainCursor c
    let c ← match d with
      | .ok _ => Prod.snd <$> callWith fun w => c.release w
      | .error _ => pure c
    callWith fun w => c.drop w
    match d with
    | .ok d => return .ok (.ok d)
    | .error p => return .error (.panic p)

def readAllTimes (p : Provider) :
    (count : Nat) → Step α (Except (Answer α) (List (Except StreamError (Drained α))))
  | 0 => pure (.ok [])
  | count + 1 => do
    match ← readAll p with
    | .error a => return .error a
    | .ok d =>
      match ← readAllTimes p count with
      | .error a => return .error a
      | .ok ds => return .ok (d :: ds)

def sameReading (same : α → α → Bool) (a b : Except StreamError (Drained α)) : Bool :=
  match a, b with
  | .ok d, .ok e =>
    d.items.size == e.items.size &&
      (d.items.toList.zip e.items.toList).all (fun (x, y) => same x y) && decide (d.stop = e.stop)
  | .error e, .error f => decide (e = f)
  | _, _ => false

/-- Several readers at once. Each gets the same in any order, so they run in turn. -/
def drainInParallel (same : α → α → Bool) (on : String) (count : Nat) : Step α (Answer α) := do
  match (← get).provider? on with
  | none => return .refused
  | some p =>
    match ← quietly (readAllTimes p count) with
    | .error a => return a
    | .ok [] => return .parallel true none
    | .ok (d :: ds) => return .parallel (ds.all (sameReading same d)) (some d)

def openTimes (p : Provider) :
    (count : Nat) → List Cursor → Step α (Except (Answer α) (List Cursor))
  | 0, cs => pure (.ok cs.reverse)
  | count + 1, cs => do
    match ← callWith fun w => p.openCursor w with
    | .ok c => openTimes p count (c :: cs)
    | .error (.error e) => return .error (.error e)
    | .error (.panic p) => return .error (.panic p)

def readAndRelease : List Cursor → Step α Unit
  | [] => pure ()
  | c :: cs => do
    let (_, c) ← call (c.read (α := α))
    let (_, c) ← callWith fun w => c.release w
    callWith fun w => c.drop w
    readAndRelease cs

/-- Readers release their cursors while the provider is closed twice. -/
def tearDownInParallel (on : String) (count : Nat) : Step α (Answer α) := do
  match (← get).provider? on with
  | none => return .refused
  | some p =>
    match ← openTimes p count [] with
    | .error a => return a
    | .ok cs => quietly do
      readAndRelease cs
      discard (callWith fun w => p.close w none)
      discard (callWith fun w => p.close w none)
      return .done

end Replay.Session
