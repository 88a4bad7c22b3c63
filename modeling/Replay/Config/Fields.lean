import Replay.Config

/-!
The fields of a configuration in a text. Each may be left out and then has its value for objects; none
may be given twice, under either of its names.
-/
namespace Replay.Config

/-- The text is malformed, or its limit is refused. -/
inductive Fault where
  | malformed
  | refused (reason : String)
  deriving DecidableEq

inductive ReadError where
  | fault (f : Fault)
  | invalid (e : StreamError)
  deriving DecidableEq

inductive Field where
  | initial
  | increment
  | limit
  | ownership
  deriving DecidableEq

namespace Field

def name : Field → String
  | initial => "initial_buffer_size"
  | increment => "buffer_size_increment"
  | limit => "max_buffer_size"
  | ownership => "source_ownership"

def otherName : Field → String
  | initial => "initialBufferSize"
  | increment => "bufferSizeIncrement"
  | limit => "maxBufferSize"
  | ownership => "sourceOwnership"

def all : List Field := [initial, increment, limit, ownership]

def ofKey? (key : String) : Option Field := all.find? fun f => f.name = key ∨ f.otherName = key

@[simp] theorem ofKey?_name (f : Field) : ofKey? f.name = some f := by
  cases f <;> simp [ofKey?, all, name, otherName]

end Field

/-- The greatest size: sizes are unsigned 64-bit numbers. -/
def maxSize : Nat := UInt64.size - 1

/-- Minus one stands for no limit. -/
def limitOfInt (n : Int) : Except Fault Limit :=
  if n = -1 then .ok .unbounded
  else if h : 0 < n then .ok (.limited n.toNat (by omega))
  else .error (.refused s!"max_buffer_size must be positive or -1 (unbounded), got {n}")

/-- The only word is "unbounded", in any case. -/
def limitOfWord (word : String) : Except Fault Limit :=
  if word.toLower = "unbounded" then .ok .unbounded
  else .error (.refused s!"unrecognized max_buffer_size `{word}`")

def ownershipWord : Ownership → String
  | .owned => "owned"
  | .borrowed => "borrowed"

def ownershipOfWord? (word : String) : Option Ownership :=
  if word = "owned" then some .owned else if word = "borrowed" then some .borrowed else none

@[simp] theorem ownershipOfWord?_word (o : Ownership) :
    ownershipOfWord? (ownershipWord o) = some o := by
  cases o <;> simp [ownershipWord, ownershipOfWord?]

structure Draft where
  initial : Option Nat := none
  increment : Option Nat := none
  limit : Option Limit := none
  ownership : Option Ownership := none

namespace Draft

def has (d : Draft) : Field → Bool
  | .initial => d.initial.isSome
  | .increment => d.increment.isSome
  | .limit => d.limit.isSome
  | .ownership => d.ownership.isSome

def config (d : Draft) : Config where
  initial := d.initial.getD forObjects.initial
  increment := d.increment.getD forObjects.increment
  limit := d.limit.getD forObjects.limit
  ownership := d.ownership.getD forObjects.ownership

end Draft
end Replay.Config
