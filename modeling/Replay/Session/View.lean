import Replay.Session.Basic

/-!
The observable state of an object.
-/
namespace Replay

structure BucketView where
  index : Nat
  capacity : Nat
  filled : Nat
  full : Bool

structure BufferView where
  buckets : Nat
  consumed : Nat
  exhausted : Bool
  closed : Bool
  size : Option Nat

inductive View where
  | source (hint : Option Nat)
  | bucket (v : BucketView)
  | buffer (v : BufferView)
  | cursor (position : Nat) (size : Option Nat) (released closed : Bool) (provider : ProviderId)
  | base (id : ProviderId) (closed : Bool) (buffer : BufferView)
  | scripted (id : ProviderId) (closed : Bool) (opens closes releases : Nat)
  | janitor (id : ProviderId) (closed released : Bool) (openCursors : Nat) (statistics : Statistics)
  | manager (contexts : List (String × Nat)) (statistics : Statistics)
  | guard (context : String)
  | report (r : Report)

variable {α : Type}

def Bucket.view (k : Bucket α) : BucketView := ⟨k.index, k.capacity, k.filled, k.isFull⟩

def Buffer.view (b : Buffer α) : BufferView :=
  ⟨b.published.size, b.consumed, b.exhausted, b.isClosed, b.size⟩

def Janitor.view (m : Store α) (j : Janitor) : View :=
  let t := m.janitor j.slot
  .janitor j.id t.closed t.released t.openCursors (m.statisticsAt j.statistics)

namespace Object

def bucketAt? (m : Store α) (feed held : Nat) : Option (Bucket α) :=
  (m.feeds.buffer? feed).bind fun b => b.bucket? held

/-- Contexts are shown in the order of their names. -/
def view (m : Store α) : Object → Option View
  | source feed => some (.source ((m.feeds.source? feed).bind m.feeds.announced))
  | buffer feed => (m.feeds.buffer? feed).map fun b => .buffer b.view
  | bucket feed held => (bucketAt? m feed held).map fun k => .bucket k.view
  | cursor c => some (.cursor c.position (c.size m.feeds) c.isReleased c.isClosed c.provider)
  | provider (.base slot id feed) =>
    (m.feeds.buffer? feed).map fun b => .base id (m.baseClosed slot) b.view
  | provider (.managed slot statistics _ inner) => some (Janitor.view m ⟨slot, statistics, inner⟩)
  | provider (.scripted slot script inner) =>
    let t := m.script slot
    some (.scripted inner.id ((Provider.scripted slot script inner).isClosed m)
      t.opens t.closes t.releases)
  | janitor j => some (j.view m)
  | manager slot => (m.manager? slot).map fun t =>
    .manager
      ((t.contexts.map fun entry => (entry.1, entry.2.length)).mergeSort
        fun a b => decide (a.1 ≤ b.1))
      (m.statisticsAt t.statistics)
  | guard _ context => some (.guard context)
  | report r => some (.report r)

end Object

def Session.view (s : Session α) (name : String) : Option View :=
  (s.find? name).bind (Object.view s.store)

/-- Context names in order, and the number of repetitions. -/
def sortContexts (names : List String) : List String × Nat :=
  let sorted := (names.mergeSort fun a b => decide (a ≤ b)).eraseDups
  (sorted, names.length - sorted.length)

end Replay
