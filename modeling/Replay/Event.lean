import Replay.Cleanup
import Replay.Config

/-!
Lifecycle events, in the order in which they are logged.
-/
namespace Replay

inductive Event where
  | bucketAllocated (index capacity : Nat)
  | sourceExhausted (total : Nat)
  | growthRefused (capacity : Nat)
  | sizeExceeded (limit : Nat)
  | bufferClosed (consumed : Nat) (ownership : Ownership)
  | providerClosed (id : ProviderId)
  | providerRegistered (id : ProviderId) (context : String)
  | managedProviderClosed (id : ProviderId)
  | resourcesReleased (id : ProviderId) (outstanding faults : Nat)
  | contextCompleted (context : String) (providers faults : Nat)
  | faultSwallowed (fault : Fault)
  deriving DecidableEq

inductive Level where
  | debug
  | warn
  deriving DecidableEq

def Level.text : Level → String
  | .debug => "DEBUG"
  | .warn => "WARN"

inductive FieldValue where
  | count (n : Nat)
  | text (s : String)
  deriving DecidableEq

def Ownership.text : Ownership → String
  | .owned => "Owned"
  | .borrowed => "Borrowed"

namespace Event

/-- Exceeded capacities and swallowed faults are warnings. -/
def level : Event → Level
  | growthRefused _ | sizeExceeded _ | faultSwallowed _ => .warn
  | _ => .debug

def message : Event → String
  | bucketAllocated .. => "stream buffer allocated bucket"
  | sourceExhausted .. => "stream source exhausted"
  | growthRefused .. => "stream buffer cannot grow past its initial bucket"
  | sizeExceeded .. => "stream buffer exceeded its maximum size"
  | bufferClosed .. => "stream buffer closed"
  | providerClosed .. => "cursor provider closed"
  | providerRegistered .. => "managed cursor provider registered"
  | managedProviderClosed .. => "managed cursor provider closed"
  | resourcesReleased .. => "cursor provider resources released"
  | contextCompleted .. => "streaming context completed"
  | faultSwallowed .. => "streaming cleanup fault swallowed"

def fields : Event → List (String × FieldValue)
  | bucketAllocated index capacity =>
    [("bucket_index", .count index), ("capacity", .count capacity)]
  | sourceExhausted total => [("total", .count total)]
  | growthRefused capacity => [("capacity", .count capacity)]
  | sizeExceeded limit => [("limit", .count limit)]
  | bufferClosed consumed ownership =>
    [("consumed", .count consumed), ("ownership", .text ownership.text)]
  | providerClosed id => [("provider_id", .text id.text)]
  | providerRegistered id context => [("provider_id", .text id.text), ("context", .text context)]
  | managedProviderClosed id => [("provider_id", .text id.text)]
  | resourcesReleased id outstanding faults =>
    [("provider_id", .text id.text), ("outstanding_cursors", .count outstanding),
      ("faults", .count faults)]
  | contextCompleted context providers faults =>
    [("context", .text context), ("providers", .count providers), ("faults", .count faults)]
  | faultSwallowed fault =>
    [("provider_id", .text fault.provider.text), ("stage", .text fault.stage.text),
      ("detail", .text fault.detail)]

end Event
end Replay
