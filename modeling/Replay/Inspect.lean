import Replay.Manager

/-!
Debug representations: the kind of an object and its fields between braces.
-/
namespace Replay.Inspect

def record (kind : String) (fields : List (String × String)) : String :=
  kind ++ " \x7b " ++ ", ".intercalate (fields.map fun f => f.1 ++ ": " ++ f.2) ++ " \x7d"

def number (n : Nat) : String := toString n

def flag (b : Bool) : String := if b then "true" else "false"

def limit : Limit → String
  | .unbounded => "Unbounded"
  | .limited count _ => s!"Limited({count})"

def failure : Option Failure → String
  | none => "None"
  | some (.sizeExceeded limit) => "Some(" ++ record "SizeExceeded" [("limit", number limit)] ++ ")"
  | some (.growthDisabled capacity) =>
    "Some(" ++ record "GrowthDisabled" [("capacity", number capacity)] ++ ")"

def providerId (id : ProviderId) : String := s!"ProviderId({id.number})"

def layout (l : Layout) : String :=
  record "PositionMapper" [("initial", number l.initial), ("increment", number l.increment)]

def config (c : Config) : String :=
  record "StreamingConfig"
    [("initial_buffer_size", number c.initial), ("buffer_size_increment", number c.increment),
      ("max_buffer_size", limit c.limit), ("source_ownership", c.ownership.text)]

def statistics (s : Statistics) : String :=
  record "StatisticsSnapshot"
    [("open_providers", number s.providers), ("open_cursors", number s.cursors)]

variable {α : Type}

def bucket (k : Bucket α) : String :=
  record "Bucket"
    [("index", number k.index), ("capacity", number k.capacity), ("filled", number k.filled)]

def buffer (b : Buffer α) : String :=
  record "StreamBuffer"
    [("mapper", layout b.layout), ("limit", limit b.limit), ("consumed", number b.consumed),
      ("exhausted", flag b.exhausted), ("closed", flag b.closed), ("failure", failure b.failure)]

/-- A managed cursor shows the id of its janitor. -/
def cursor : Cursor → String
  | .plain _ provider head =>
    record "BufferedCursor"
      [("provider_id", providerId provider), ("position", number head.position),
        ("released", flag head.released), ("closed", flag head.closed)]
  | .managed janitor released inner =>
    record "ManagedCursor"
      [("provider_id", providerId janitor.id), ("position", number inner.position),
        ("released", flag released)]
  | .watched _ _ inner => cursor inner

def janitor (m : Store α) (j : Janitor) : String :=
  let t := m.janitor j.slot
  record "CursorJanitor"
    [("provider_id", providerId j.id), ("open_cursors", number t.openCursors),
      ("closed", flag t.closed), ("released", flag t.released)]

def managedProvider (m : Store α) (j : Janitor) : String :=
  record "ManagedCursorProvider" [("id", providerId j.id), ("janitor", janitor m j)]

def manager (m : Store α) (t : ManagerState) : String :=
  record "StreamingManager"
    [("config", config t.config), ("statistics", statistics (m.statisticsAt t.statistics)),
      ("contexts", number t.contexts.length)]

end Replay.Inspect
