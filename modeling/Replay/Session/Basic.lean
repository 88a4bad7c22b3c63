import Replay.Reach

/-!
A session holds objects by name. Reusing a name drops the previous object; a dropped cursor is released,
and a dropped guard completes its context.
-/
namespace Replay

/-- Buffers and sources are given by their feeds, managers by their slots. -/
inductive Object where
  | source (feed : Nat)
  | buffer (feed : Nat)
  | bucket (feed held : Nat)
  | cursor (c : Cursor)
  | provider (p : Provider)
  | janitor (j : Janitor)
  | manager (slot : Nat)
  | guard (manager : Nat) (context : String)
  | report (r : Report)

structure Session (α : Type) where
  store : Store α := {}
  objects : List (String × Object) := []
  statistics : List (String × Nat) := []

namespace Object

variable {α : Type}

def reach (m : Store α) : Object → Reach
  | source feed => { feeds := [feed] }
  | buffer feed => { feeds := [feed] }
  | cursor c => c.reach m
  | provider p => p.reach
  | janitor j => j.reach m
  | manager slot | guard slot _ => ((m.manager? slot).map ManagerState.reach).getD {}
  | bucket .. | report _ => {}

def bufferFeed? : Object → Option Nat
  | buffer feed | provider (.base _ _ feed) => some feed
  | _ => none

def janitor? : Object → Option Janitor
  | janitor j => some j
  | provider p => p.janitor?
  | _ => none

def manager? : Object → Option Nat
  | manager slot | guard slot _ => some slot
  | _ => none

end Object

namespace Session

variable {α β : Type}

abbrev Step (α β : Type) := StateM (Session α) β

def find? (s : Session α) (name : String) : Option Object := s.objects.lookup name

def cursor? (s : Session α) (name : String) : Option Cursor :=
  match s.find? name with
  | some (.cursor c) => some c
  | _ => none

def provider? (s : Session α) (name : String) : Option Provider :=
  match s.find? name with
  | some (.provider p) => some p
  | _ => none

def source? (s : Session α) (name : String) : Option Nat :=
  match s.find? name with
  | some (.source feed) => some feed
  | _ => none

def report? (s : Session α) (name : String) : Option Report :=
  match s.find? name with
  | some (.report r) => some r
  | _ => none

def bufferFeed? (s : Session α) (name : String) : Option Nat :=
  (s.find? name).bind Object.bufferFeed?

def janitor? (s : Session α) (name : String) : Option Janitor := (s.find? name).bind Object.janitor?

def manager? (s : Session α) (name : String) : Option Nat := (s.find? name).bind Object.manager?

def call (f : Store.Call α β) : Step α β := modifyGet fun s =>
  let (r, store) := f s.store
  (r, { s with store })

def callWith (f : Switches α → Store.Call α β) : Step α β := call (withSwitches f)

/-- Binds a name to an object, dropping the previous one. -/
def put (name : String) (object : Object) : Step α Unit := modify fun s =>
  { s with objects :=
      if (s.find? name).isSome then
        s.objects.map fun entry => if entry.1 = name then (name, object) else entry
      else s.objects ++ [(name, object)] }

def erase (name : String) : Step α Unit := modify fun s =>
  { s with objects := s.objects.filter fun entry => entry.1 ≠ name }

def part : Option Object → Step α Unit
  | some (.cursor c) => callWith fun w => c.drop w
  | some (.guard slot context) => do
    discard (callWith fun w => Manager.complete w slot context)
  | _ => pure ()

def assign (name : String) (object : Object) : Step α Unit := do
  let before := (← get).find? name
  put name object
  part before

def assign? (name : Option String) (object : Object) : Step α Unit :=
  match name with
  | some name => assign name object
  | none => pure ()

/-- Drops what no object of the session reaches. -/
def settle : Step α Unit := do
  let s ← get
  let held := Reach.unions (s.objects.map fun entry => entry.2.reach s.store)
  callWith fun w => Store.settle w held

/-- The statistics of a name, created on first use. -/
def statisticsOf (name : String) : Step α Nat := do
  match (← get).statistics.lookup name with
  | some slot => return slot
  | none =>
    let slot ← call Store.newStatistics
    modify fun s => { s with statistics := s.statistics ++ [(name, slot)] }
    return slot

def takeLog : Step α (Array Event) := modifyGet fun s =>
  (s.store.feeds.log, { s with store.feeds.log := #[] })

/-- Runs `f` without keeping its events. -/
def quietly (f : Step α β) : Step α β := do
  let before := (← get).store.feeds.log
  let r ← f
  modify fun s => { s with store.feeds.log := before }
  return r

end Session
end Replay
