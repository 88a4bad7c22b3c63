import Replay.Manager
import Replay.Proofs.Buffer.Pulling

/-!
One buffer shared by any number of cursors, and runs of operations on them.
-/
namespace Replay

open Store

variable {α : Type}

/-- A configuration and the outcomes of all pulls. -/
structure Supply (α : Type) where
  config : Config
  outcomes : Nat → Pull α
  hint : Option Nat := none
  closing : Outcome SourceError Unit := .ok ()

namespace Supply

def layout (t : Supply α) : Layout := ⟨t.config.initial, t.config.increment⟩

def source (t : Supply α) (count : Nat) : Source α := .script t.outcomes count t.hint t.closing

def items (t : Supply α) (count : Nat) : List α := delivered t.outcomes count

def start (t : Supply α) : Buffer α :=
  { layout := t.layout, limit := t.config.limit, ownership := t.config.ownership, hint := t.hint }

def buffer (t : Supply α) (count : Nat) : Buffer α := t.start.after t.outcomes count

/-- The numbers below a bound, then the end. -/
def counting (config : Config) (bound : Nat) : Supply Nat :=
  { config, outcomes := fun i => if i < bound then .item i else .finished }

theorem sound_start {t : Supply α} (h : t.config.validate = .ok ()) : t.start.Sound [] where
  initial := (Config.validate_ok_iff.mp h).1
  limit := (Config.validate_ok_iff.mp h).2
  opened := rfl
  listed := ⟨rfl, rfl⟩
  holds :=
    { consumed := rfl
      bucket := fun _ hindex => absurd hindex (Nat.not_lt_zero _)
      reached := fun _ hindex => absurd hindex (Nat.not_lt_zero _)
      above := le_rfl
      below := fun _ hindex => absurd hindex (Nat.not_lt_zero _) }
  standing := ⟨rfl, fun _ _ => Nat.zero_le _⟩

end Supply

inductive CursorOp where
  | hasNext
  | next
  | seek (position : Nat)
  | release
  | close
  | read (room : Nat)
  | items (count : Nat)
  | drain (most : Nat)

inductive SharedOp where
  | addCursor (provider : ProviderId)
  | cursorOp (cursor : Nat) (cursorOp : CursorOp)
  | hasNext (offset : Nat)
  | bucketFor (offset : Nat)
  | close

/-- The reply to an operation; items carry the offset they were read at. -/
inductive Reply (α : Type) where
  | done
  | refused
  | flag (offset : Nat) (r : Outcome StreamError Bool)
  | bucket (offset : Nat) (r : Outcome StreamError (Option Nat))
  | item (offset : Nat) (r : Outcome StreamError α)
  | moved (r : Except StreamError Unit)
  | read (offset : Nat) (r : Outcome StreamError (List α))
  | items (offset : Nat) (r : Except Panic (List (Option (Except StreamError α))))
  | drained (offset : Nat) (r : Except Panic (Array α × Option StreamError))
  | closed (r : Outcome SourceError Unit)

def CursorOp.perform (c : Cursor) : CursorOp → Call α (Reply α × Cursor)
  | hasNext => do return (.flag c.position (← onFeeds c.hasNext), c)
  | next => do
    let (r, d) ← c.read
    return (.item c.position r, d)
  | seek position =>
    match c.seek position with
    | .ok d => return (.moved (.ok ()), d)
    | .error e => return (.moved (.error e), c)
  | release => do
    let (_, d) ← withSwitches fun w => c.release w
    return (.done, d)
  | close => do return (.done, ← withSwitches fun w => c.close w)
  | read room => onFeeds fun s =>
    let (r, d, s) := Cursor.reader.fill room (c, s)
    ((.read c.position r, d), s)
  | items count => onFeeds fun s =>
    let (r, it) := Items.take Cursor.reader count ⟨(c, s), false⟩
    ((.items c.position r, it.rest.1), it.rest.2)
  | drain most => onFeeds fun s =>
    let (r, it) := Items.drain Cursor.reader most #[] ⟨(c, s), false⟩
    ((.drained c.position r, it.rest.1), it.rest.2)

structure Shared (α : Type) where
  store : Store α
  feed : Nat
  cursors : List Cursor := []

namespace Shared

def buffer? (s : Shared α) : Option (Buffer α) := s.store.feeds.buffer? s.feed

def pulls (s : Shared α) : Nat := (s.store.feeds.cells[s.feed]?.map (·.tally.pulls)).getD 0

/-- A new buffer over the source of a supply, in any store. -/
def begin (m : Store α) (t : Supply α) : Except StreamError Unit × Shared α :=
  let (feed, m) := (addSource (t.source 0)).run m
  let (r, m) := (withSwitches fun w => addBuffer w t.config feed).run m
  (r, ⟨m, feed, []⟩)

def call {β : Type} (s : Shared α) (f : Call α β) (reply : β → Reply α) : Reply α × Shared α :=
  let (r, store) := f.run s.store
  (reply r, { s with store })

def use (s : Shared α) : SharedOp → Reply α × Shared α
  | .addCursor provider => (.done, { s with cursors := s.cursors ++ [.plain s.feed provider {}] })
  | .cursorOp i cursorOp =>
    match s.cursors[i]? with
    | none => (.refused, s)
    | some c =>
      let ((r, c), store) := (cursorOp.perform c).run s.store
      (r, { s with store, cursors := s.cursors.set i c })
  | .hasNext offset => s.call
    (onFeeds (Feeds.onBuffer s.feed (Buffer.hasNext (Feeds.tap Feeds.draw s.feed) offset)))
    (.flag offset)
  | .bucketFor offset => s.call
    (onFeeds (Feeds.onBuffer s.feed (Buffer.bucketFor (Feeds.tap Feeds.draw s.feed) offset)))
    (.bucket offset)
  | .close => s.call (withSwitches fun w => closeBuffer w s.feed) .closed

def run (s : Shared α) : List SharedOp → List (Reply α) × Shared α
  | [] => ([], s)
  | u :: us =>
    let (reply, s) := s.use u
    let (replies, s) := s.run us
    (reply :: replies, s)

end Shared
end Replay
