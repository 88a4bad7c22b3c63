/-!
The values of a TOML document, and how keys and headers extend its tables. A table records how it was
created, which determines what may be added to it.
-/
namespace Replay.Toml

/-- A table is created by a header, implied by a longer path, or made by a dotted key. -/
inductive Form where
  | explicit
  | implied
  | dotted
  deriving DecidableEq

/-- Floats, dates and times are recognised but not kept. An inline table is closed; the tables of an
array are opened by headers. -/
inductive Value where
  | string (text : String)
  | integer (n : Int)
  | float
  | boolean (b : Bool)
  | moment
  | array (elements : List Value)
  | inline (form : Form) (entries : List (String × Value))
  | table (form : Form) (entries : List (String × Value))
  | tables (elements : List (List (String × Value)))

abbrev Entries := List (String × Value)

namespace Entries

def has (t : Entries) (key : String) : Bool := (t.lookup key).isSome

def put (t : Entries) (key : String) (v : Value) : Entries :=
  t.map fun e => if e.1 = key then (key, v) else e

def erase (t : Entries) (key : String) : Entries := t.filter fun e => e.1 ≠ key

def onLast (ts : List Entries) (f : Entries → Option Entries) : Option (List Entries) :=
  match ts.getLast? with
  | none => none
  | some t => (f t).map fun t => ts.dropLast ++ [t]

/-- Adds a value under a dotted key to a table of the given form. Only tables created by dotted keys,
and the table that the key starts from, may be extended. -/
def insert (isInline : Bool) (key : String) (v : Value) (form : Form) :
    (path : List String) → (whole : Bool) → Entries → Option Entries
  | [], whole, t =>
    if (form == .dotted) == whole && !has t key then some (t ++ [(key, v)]) else none
  | step :: path, whole, t =>
    let make := fun form sub => if isInline then Value.inline form sub else Value.table form sub
    match t.lookup step with
    | none =>
      (insert isInline key v .dotted path whole []).map fun sub => t ++ [(step, make .dotted sub)]
    | some (.inline form sub) =>
      if !isInline ∨ form = .explicit then none
      else (insert isInline key v form path whole sub).map fun sub => put t step (make form sub)
    | some (.table form sub) =>
      if isInline ∨ form = .explicit then none
      else (insert isInline key v form path whole sub).map fun sub => put t step (make form sub)
    | some (.tables ts) =>
      if isInline then none
      else
        (onLast ts (insert isInline key v .explicit path whole)).map fun ts =>
          put t step (.tables ts)
    | some _ => none

def add (isInline : Bool) (t : Entries) (path : List String) (key : String) (v : Value) :
    Option Entries :=
  insert isInline key v .explicit path (!path.isEmpty) t

/-- Applies `f` to the table at a header's path, creating implied tables on the way. -/
def under : (path : List String) → (Entries → Option Entries) → Entries → Option Entries
  | [], f, t => f t
  | step :: path, f, t =>
    match t.lookup step with
    | none => (under path f []).map fun sub => t ++ [(step, .table .implied sub)]
    | some (.table form sub) => (under path f sub).map fun sub => put t step (.table form sub)
    | some (.tables ts) => (onLast ts (under path f)).map fun ts => put t step (.tables ts)
    | some _ => none

/-- Takes out the table that a header opens. An implied table keeps its entries; any other value of that
name is an error. -/
def takeOut (key : String) (t : Entries) : Option (Entries × Entries) :=
  match t.lookup key with
  | none => some ([], t)
  | some (.table .implied sub) => some (sub, erase t key)
  | some _ => none

/-- The existing entries of the table that a header opens. -/
def found (above : List String) (key : String) (t : Entries) : Option Entries :=
  match above with
  | [] => (takeOut key t).map (·.1)
  | step :: above =>
    match t.lookup step with
    | none => some []
    | some (.table _ sub) => found above key sub
    | some (.tables ts) => ts.getLast?.bind (found above key)
    | some _ => none

def openArray (key : String) (t : Entries) : Option Entries :=
  match t.lookup key with
  | none => some (t ++ [(key, .tables [])])
  | some (.tables _) => some t
  | some _ => none

end Entries

/-- The tables finished so far, and the one being filled with its path. -/
structure Draft where
  root : Entries := []
  path : List String := []
  isArray : Bool := false
  current : Entries := []

namespace Draft

def add (d : Draft) (path : List String) (key : String) (v : Value) : Option Draft :=
  (Entries.add false d.current path key v).map fun current => { d with current }

def finish (d : Draft) : Option Entries :=
  match d.path.getLast? with
  | none => some d.current
  | some key =>
    Entries.under d.path.dropLast (fun t =>
      if d.isArray then
        match t.lookup key with
        | none => some (t ++ [(key, .tables [d.current])])
        | some (.tables ts) => some (Entries.put t key (.tables (ts ++ [d.current])))
        | some _ => none
      else if Entries.has t key then none
      else some (t ++ [(key, .table .explicit d.current)])) d.root

/-- Finishes the current table and opens the one named by a header. -/
def header (d : Draft) (above : List String) (key : String) (isArray : Bool) : Option Draft := do
  let root ← d.finish
  let path := above ++ [key]
  if isArray then
    let root ← Entries.under above (Entries.openArray key) root
    return { root, path, isArray, current := [] }
  else
    let current ← Entries.found above key root
    let root ← Entries.under above (fun t => (Entries.takeOut key t).map (·.2)) root
    return { root, path, isArray, current }

end Draft
end Replay.Toml
