/-!
Errors and panics. A call ends with a result, with an error for its caller, or with a panic that unwinds
to the first caller that catches it.
-/
namespace Replay

/-- The number of a provider. A layer has the id of the provider it wraps. -/
structure ProviderId where
  number : Nat
  deriving DecidableEq

def ProviderId.text (id : ProviderId) : String := s!"cursor-provider-{id.number}"

inductive SourceError where
  | io (message : String)
  | failed (detail : String)
  deriving DecidableEq

def SourceError.message : SourceError → String
  | .io message => s!"i/o error: {message}"
  | .failed detail => detail

inductive StreamError where
  | bufferSizeExceeded (limit : Nat)
  | bufferGrowthDisabled (capacity : Nat)
  | endOfData (position : Nat)
  | missingItem (position : Nat)
  | cursorClosed
  | cursorReleased
  | bufferClosed
  | providerClosed (id : ProviderId)
  | source (cause : SourceError)
  | invalidConfig (detail : String)
  deriving DecidableEq

namespace StreamError

def message : StreamError → String
  | bufferSizeExceeded limit =>
    s!"streaming buffer exceeded its maximum size of {limit} items"
  | bufferGrowthDisabled capacity =>
    s!"streaming buffer cannot grow beyond its initial capacity of {capacity} items"
  | endOfData position => s!"no item available at position {position}: end of data"
  | missingItem position => s!"bucket resolved for position {position} but its slot is empty"
  | cursorClosed => "cursor is closed"
  | cursorReleased => "cursor has been released"
  | bufferClosed => "streaming buffer is closed"
  | providerClosed id => s!"cursor provider `{id.text}` is closed"
  | source cause => s!"source failure: {cause.message}"
  | invalidConfig detail => s!"invalid streaming configuration: {detail}"

def isFatal : StreamError → Bool
  | bufferSizeExceeded _ | bufferGrowthDisabled _ | bufferClosed | source _ => true
  | _ => false

end StreamError

/-- The payload of a panic, if it is a text. -/
structure Panic where
  message : Option String
  deriving DecidableEq

def Panic.text (p : Panic) : String := p.message.getD "non-string panic payload"

inductive Stop (ε : Type) where
  | error (e : ε)
  | panic (p : Panic)
  deriving DecidableEq

abbrev Outcome (ε α : Type) := Except (Stop ε) α

namespace Outcome

variable {ε α : Type}

def raise (e : ε) : Outcome ε α := .error (.error e)

def panic (p : Panic) : Outcome ε α := .error (.panic p)

/-- The outcome with its error converted. -/
def mapError {δ : Type} (f : ε → δ) : Outcome ε α → Outcome δ α
  | .ok a => .ok a
  | .error (.error e) => raise (f e)
  | .error (.panic p) => panic p

end Outcome
end Replay
