import Replay.Source.Bytes
import Replay.Source.Iter
import Replay.Cursor

/-!
Sources, which are pulled once, item by item. Besides iterators and byte devices there are scripts,
which fix the outcome of every pull, and chains, which pull from a cursor over another buffer.
-/
namespace Replay

inductive Source (α : Type) where
  | iterator (ahead : Option (Iter α))
  | script (outcomes : Nat → Pull α) (pulled : Nat) (hint : Option Nat)
    (closing : Outcome SourceError Unit)
  | bytes (source : ByteSource) (item : UInt8 → α)
  | chain (cursor : Cursor)

/-- The number of pulls, of calls of `close`, and of device reads. -/
structure Tally where
  pulls : Nat := 0
  closes : Nat := 0
  reads : Nat := 0
  deriving DecidableEq

namespace Source

variable {α : Type}

/-- A script of the given steps, ending after them. -/
def playing (steps : Array (Pull α)) (hint : Option Nat) (closing : Outcome SourceError Unit) :
    Source α :=
  .script (fun pulled => steps.getD pulled .finished) 0 hint closing

def bare (items : Array α) : Source α := playing (items.map .item) none (.ok ())

def cursor? : Source α → Option Cursor
  | chain c => some c
  | _ => none

/-- The size hint of an unstarted source. -/
def hint : Source α → Option Nat
  | iterator ahead => ahead.bind Iter.exactSize
  | script _ _ hint _ => hint
  | _ => none

end Source

def Pull.map {α β : Type} (f : α → β) : Pull α → Pull β
  | .item a => .item (f a)
  | .finished => .finished
  | .failed e => .failed e
  | .panicked p => .panicked p

end Replay
