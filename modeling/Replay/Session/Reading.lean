import Replay.Session.Command
import Replay.Inspect

/-!
The commands on sources, buffers, buckets and cursors.
-/
namespace Replay.Session

variable {α : Type}

/-- Creates a source; a chain takes its cursor out of the session. -/
def build : SourcePlan α → Step α (Option Nat)
  | .ready source => some <$> call (Store.addSource source)
  | .chain name => do
    match (← get).cursor? name with
    | none => return none
    | some c =>
      erase name
      some <$> call (Store.addSource (.chain c))

def makeSource (name : String) (plan : SourcePlan α) : Step α (Answer α) := do
  match ← build plan with
  | none => return .refused
  | some feed =>
    assign name (.source feed)
    return .done

def onFeeds {β : Type} (f : Feeds α → β × Feeds α) : Step α β := call (Store.onFeeds f)

def pullSource (on : String) : Step α (Answer α) := do
  match (← get).source? on with
  | none => return .refused
  | some feed =>
    match ← onFeeds (Feeds.draw feed) with
    | .item a => return .pulled (some a)
    | .finished => return .pulled none
    | .failed e => return .sourceError e
    | .panicked p => return .panic p

def closeSource (on : String) : Step α (Answer α) := do
  match (← get).source? on with
  | none => return .refused
  | some feed => return .ofSource (fun _ => .done) (← callWith fun w => Store.closeSource w feed)

/-- A buffer over a new source, which stays created even if the buffer is refused. -/
def buildBuffer (config : Except Config.ReadError Config) (plan : SourcePlan α) :
    Step α (Except (Answer α) Nat) := do
  match config with
  | .error e => return .error (.configError e)
  | .ok config =>
    match ← build plan with
    | none => return .error .refused
    | some feed =>
      match ← callWith fun w => Store.addBuffer w config feed with
      | .error e => return .error (.error e)
      | .ok () => return .ok feed

def makeBuffer (name : String) (config : Except Config.ReadError Config) (plan : SourcePlan α) :
    Step α (Answer α) := do
  match ← buildBuffer config plan with
  | .error answer => return answer
  | .ok feed =>
    assign name (.buffer feed)
    return .done

def askBuffer (on : String) (f : Buffer α → Answer α) : Step α (Answer α) := do
  let s ← get
  return (((s.bufferFeed? on).bind s.store.feeds.buffer?).map f).getD .refused

def bufferInfo (on : String) : Step α (Answer α) := askBuffer on fun b => .info b.layout b.limit

def bufferReadable (on : String) : Step α (Answer α) := askBuffer on fun b =>
  match b.refusal with
  | none => .done
  | some e => .error e

def bufferPosition (on : String) (offset : Nat) : Step α (Answer α) :=
  askBuffer on fun b => .position (b.layout.locate offset)

def bufferHas (on : String) (offset : Nat) : Step α (Answer α) := do
  match (← get).bufferFeed? on with
  | none => return .refused
  | some feed =>
    return .ofOutcome .flag
      (← onFeeds (Feeds.onBuffer feed (Buffer.hasNext (Feeds.tap Feeds.draw feed) offset)))

/-- The number of items of a bucket that are shown. -/
def shownItems : Nat := 8

def bufferBucket (on : String) (offset : Nat) (name : Option String) : Step α (Answer α) := do
  match (← get).bufferFeed? on with
  | none => return .refused
  | some feed =>
    match ← onFeeds (Feeds.onBuffer feed (Buffer.bucketFor (Feeds.tap Feeds.draw feed) offset)) with
    | .error (.error e) => return .error e
    | .error (.panic p) => return .panic p
    | .ok none => return .done
    | .ok (some held) =>
      assign? name (.bucket feed held)
      match Object.bucketAt? (← get).store feed held with
      | none => return .refused
      | some k => return .bucket k.view (k.items.toList.take shownItems)

def closeBuffer (on : String) : Step α (Answer α) := do
  match (← get).bufferFeed? on with
  | none => return .refused
  | some feed => return .ofSource (fun _ => .done) (← callWith fun w => Store.closeBuffer w feed)

def askBucket (on : String) (f : Bucket α → Answer α) : Step α (Answer α) := do
  let s ← get
  match s.find? on with
  | some (.bucket feed held) => return ((Object.bucketAt? s.store feed held).map f).getD .refused
  | _ => return .refused

def bucketItem (on : String) (item : Nat) : Step α (Answer α) :=
  askBucket on fun k => .item (k.get? item)

def bucketContains (on : String) (p : Position) : Step α (Answer α) :=
  askBucket on fun k => .flag (k.contains p)

/-- A plain cursor on a buffer, for a provider of the session or a fresh id. -/
def makeCursor (name buffer : String) (provider : Option String) : Step α (Answer α) := do
  let s ← get
  match s.bufferFeed? buffer with
  | none => return .refused
  | some feed =>
    let id ← match provider.bind s.provider? with
      | some p => pure p.id
      | none => call Store.newProviderId
    assign name (.cursor (.plain feed id {}))
    return .done

def openCursor (on name : String) : Step α (Answer α) := do
  match (← get).provider? on with
  | none => return .refused
  | some p =>
    match ← callWith fun w => p.openCursor w with
    | .ok c =>
      assign name (.cursor c)
      return .done
    | .error (.error e) => return .error e
    | .error (.panic p) => return .panic p

def wrapCursor (name cursor janitor : String) : Step α (Answer α) := do
  let s ← get
  match s.cursor? cursor, s.janitor? janitor with
  | some c, some j =>
    erase cursor
    assign name (.cursor (.managed j false c))
    return .done
  | _, _ => return .refused

/-- Runs `f` on a cursor of the session, which keeps its name. -/
def onCursor {β : Type} (on : String) (f : Cursor → Step α (β × Cursor)) : Step α (Option β) := do
  match (← get).cursor? on with
  | none => return none
  | some c =>
    let (r, c) ← f c
    put on (.cursor c)
    return some r

def answered (r : Option (Answer α)) : Answer α := r.getD .refused

def hasNext (on : String) : Step α (Answer α) := do
  return answered (← onCursor on fun c => do
    let r ← onFeeds c.hasNext
    return (.ofOutcome .flag r, c))

def next (on : String) : Step α (Answer α) := do
  return answered (← onCursor on fun c => onFeeds fun s =>
    let (r, c, s) := c.next s
    ((.ofOutcome (fun a => .item (some a)) r, c), s))

def seek (on : String) (position : Nat) : Step α (Answer α) := do
  return answered (← onCursor on fun c => do
    match c.seek position with
    | .ok c => return (.done, c)
    | .error e => return (.error e, c))

def closeCursor (on : String) : Step α (Answer α) := do
  return answered (← onCursor on fun c => do
    return (.done, ← callWith fun w => c.close w))

def releaseCursor (on : String) : Step α (Answer α) := do
  return answered (← onCursor on fun c => do
    let (outcome, c) ← callWith fun w => c.release w
    return (.ofOutcome (fun _ => .done) outcome, c))

def releaseThrough (on janitor : String) (name : Option String) : Step α (Answer α) := do
  match (← get).janitor? janitor with
  | none => return .refused
  | some j =>
    match ← onCursor on fun c => callWith fun w => j.releaseCursor w (c.release w) with
    | none => return .refused
    | some report =>
      assign? name (.report report)
      return .report report

def items (on : String) (count : Nat) : Step α (Answer α) := do
  return answered (← onCursor on fun c => onFeeds fun s =>
    match Items.take Cursor.reader count ⟨(c, s), false⟩ with
    | (.ok entries, ⟨(c, s), _⟩) => ((.items entries, c), s)
    | (.error p, ⟨(c, s), _⟩) => ((.panic p, c), s))

/-- More items than there are positions. -/
def allItems : Nat := UInt64.size

def drainCursor (c : Cursor) : Step α (Except Panic (Drained α) × Cursor) := onFeeds fun s =>
  match Items.drain Cursor.reader allItems #[] ⟨(c, s), false⟩ with
  | (.ok (items, stop), ⟨(c, s), _⟩) => ((.ok ⟨items, stop⟩, c), s)
  | (.error p, ⟨(c, s), _⟩) => ((.error p, c), s)

def drain (on : String) : Step α (Answer α) := do
  return answered (← onCursor on fun c => do
    match ← drainCursor c with
    | (.ok d, c) => return (.drained d, c)
    | (.error p, c) => return (.panic p, c))

def read (on : String) (room : Nat) : Step α (Answer α) := do
  return answered (← onCursor on fun c => onFeeds fun s =>
    match Cursor.reader.fill room (c, s) with
    | (.ok got, c, s) => ((.bytes got, c), s)
    | (.error (.error e), c, s) => ((.readError e, c), s)
    | (.error (.panic p), c, s) => ((.panic p, c), s))

def drop (on : String) : Step α (Answer α) := do
  match (← get).find? on with
  | none => return .refused
  | some object =>
    erase on
    part (some object)
    return .done

end Replay.Session
