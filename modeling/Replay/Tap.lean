import Replay.Event

/-!
A tap gives a buffer the next item of its source and a log for its events. It is abstract, so that
theorems on buffers hold for every source.
-/
namespace Replay

inductive Pull (α : Type) where
  | item (a : α)
  | finished
  | failed (e : SourceError)
  | panicked (p : Panic)

structure Tap (α σ : Type) where
  pull : σ → Pull α × σ
  note : Event → σ → σ

end Replay
