import Replay.Config.Fields
import Replay.Session.View

/-!
The commands of a session and their answers. A command names the objects it works on, and the name for
the object it creates.
-/
namespace Replay

/-- A source as given, or a chain that takes over a cursor of the session. -/
inductive SourcePlan (α : Type) where
  | ready (source : Source α)
  | chain (cursor : String)

inductive Command (α : Type) where
  | makeSource (name : String) (plan : SourcePlan α)
  | pullSource (on : String)
  | closeSource (on : String)
  | makeBuffer (name : String) (config : Except Config.ReadError Config) (plan : SourcePlan α)
  | bufferInfo (on : String)
  | bufferReadable (on : String)
  | bufferHas (on : String) (offset : Nat)
  | bufferPosition (on : String) (offset : Nat)
  | bufferBucket (on : String) (offset : Nat) (name : Option String)
  | closeBuffer (on : String)
  | bucketItem (on : String) (item : Nat)
  | bucketContains (on : String) (p : Position)
  | makeCursor (name buffer : String) (provider : Option String)
  | openCursor (on name : String)
  | wrapCursor (name cursor janitor : String)
  | hasNext (on : String)
  | next (on : String)
  | seek (on : String) (position : Nat)
  | closeCursor (on : String)
  | releaseCursor (on : String)
  | releaseThrough (on janitor : String) (name : Option String)
  | items (on : String) (count : Nat)
  | drain (on : String)
  | read (on : String) (room : Nat)
  | drop (on : String)
  | makeProvider (name : String) (config : Except Config.ReadError Config) (plan : SourcePlan α)
  | makeProviderOver (name buffer : String)
  | makeManaged (name provider statistics : String) (hook : Hook)
  | makeJanitor (name provider : String) (openCursors : Nat) (statistics : String)
  | makeScripted (name provider : String) (script : Script)
  | bindOuter (on outer : String)
  | endProvider (on : String) (ending : Ending)
  | endReported (on : String) (ending : Ending) (name : Option String)
  | layers (on : String)
  | statistics (name : String)
  | makeManager (name : String) (config : Except Config.ReadError Config)
  | makeGuard (on name context : String)
  | manage (on name : String) (context : Option String) (plan : SourcePlan α)
  | manageProvider (on name provider context : String)
  | complete (on context : String) (name : Option String)
  | dispose (on : String)
  | providersIn (on context : String)
  | managerConfig (on : String)
  | makeReport (name : String)
  | mergeReports (on other : String)
  | inspect (on : String)
  | view (on : String)
  | drainInParallel (on : String) (count : Nat)
  | tearDownInParallel (on : String) (count : Nat)

structure Drained (α : Type) where
  items : Array α
  stop : Option StreamError

inductive Answer (α : Type) where
  | done
  | flag (b : Bool)
  | count (n : Nat)
  | text (s : String)
  | item (a : Option α)
  | pulled (a : Option α)
  | items (entries : List (Option (Except StreamError α)))
  | drained (d : Drained α)
  | bytes (items : List α)
  | info (layout : Layout) (limit : Limit)
  | position (p : Option Position)
  | bucket (v : BucketView) (first : List α)
  | report (r : Report)
  | layers (decorators : Nat) (innermost : ProviderId) (closed leaf : Bool)
  | statistics (s : Statistics) (shown : String)
  | config (c : Config)
  | wereEqual (b : Bool)
  | view (v : View)
  | parallel (same : Bool) (each : Option (Except StreamError (Drained α)))
  | error (e : StreamError)
  | configError (e : Config.ReadError)
  | sourceError (e : SourceError)
  | readError (e : StreamError)
  | panic (p : Panic)
  | refused

namespace Answer

variable {α β : Type}

def ofOutcome (f : β → Answer α) : Outcome StreamError β → Answer α
  | .ok b => f b
  | .error (.error e) => error e
  | .error (.panic p) => panic p

def ofSource (f : β → Answer α) : Outcome SourceError β → Answer α
  | .ok b => f b
  | .error (.error e) => sourceError e
  | .error (.panic p) => panic p

end Answer
end Replay
