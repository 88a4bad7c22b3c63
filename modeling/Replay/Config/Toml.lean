import Replay.Config.Fields
import Replay.Toml.Document

/-!
A configuration as TOML, written one field per line. The document is parsed as a whole first; of two
faulty fields the first is reported.
-/
namespace Replay.Config.Toml

open Replay.Toml

def malformed {α : Type} : Except Fault α := .error .malformed

def size : Value → Except Fault Nat
  | .integer n => if 0 ≤ n then .ok n.toNat else malformed
  | _ => malformed

def limit : Value → Except Fault Limit
  | .integer n => limitOfInt n
  | .string word => limitOfWord word
  | _ => malformed

def isEmpty : Value → Bool
  | .array vs => vs.isEmpty
  | .inline _ t | .table _ t => t.isEmpty
  | .tables ts => ts.isEmpty
  | _ => false

def ownershipOf (word : String) : Except Fault Ownership :=
  match ownershipOfWord? word with
  | some o => .ok o
  | none => malformed

/-- A word, or a table with that word as its only key and an empty value. -/
def ownership : Value → Except Fault Ownership
  | .string word => ownershipOf word
  | .inline _ [(word, v)] | .table _ [(word, v)] => do
    let o ← ownershipOf word
    if isEmpty v then .ok o else malformed
  | _ => malformed

def field (d : Config.Draft) (v : Value) : Field → Except Fault Config.Draft
  | .initial => return { d with initial := some (← size v) }
  | .increment => return { d with increment := some (← size v) }
  | .limit => return { d with limit := some (← limit v) }
  | .ownership => return { d with ownership := some (← ownership v) }

def fields : Config.Draft → Entries → Except Fault Config.Draft
  | d, [] => .ok d
  | d, (key, v) :: rest =>
    match Field.ofKey? key with
    | none => malformed
    | some f => do
      if d.has f then malformed
      else fields (← field d v f) rest

def limitToml : Limit → String
  | .unbounded => "\"unbounded\""
  | .limited count _ => toString count

end Replay.Config.Toml

namespace Replay.Config

/-- The valid configuration of a TOML text. -/
def ofToml (text : String) : Except ReadError Config :=
  match Toml.parse? text with
  | none => .error (.fault .malformed)
  | some root =>
    match Toml.fields {} root with
    | .error f => .error (.fault f)
    | .ok d =>
      match d.config.validate with
      | .error e => .error (.invalid e)
      | .ok () => .ok d.config

/-- The greatest TOML integer. -/
def maxToml : Nat := Int64.maxValue.toNatClampNeg

def toml? (c : Config) : Option String :=
  if c.initial ≤ maxToml ∧ c.increment ≤ maxToml ∧ c.limit.count?.all (decide <| · ≤ maxToml) then
    some (s!"{Field.initial.name} = {c.initial}\n{Field.increment.name} = {c.increment}\n" ++
      s!"{Field.limit.name} = {Toml.limitToml c.limit}\n" ++
      s!"{Field.ownership.name} = \"{ownershipWord c.ownership}\"\n")
  else none

theorem validate_of_ofToml {text : String} {c : Config} (h : ofToml text = .ok c) :
    c.validate = .ok () := by
  unfold ofToml at h
  split at h
  · cases h
  · split at h
    · cases h
    · split at h
      · cases h
      · cases h; assumption

end Replay.Config
