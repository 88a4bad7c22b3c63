import Replay.Teardown

/-!
`open_cursor`. A managed provider counts a cursor before it wraps it, and takes the count back if it
finds itself released by then; a cursor that does not reach the caller is dropped.
-/
namespace Replay

open Store

variable {α : Type}

namespace Cursor

def read (c : Cursor) : Call α (Outcome StreamError α × Cursor) := onFeeds fun s =>
  let (r, c, s) := c.next s
  ((r, c), s)

/-- Reads up to `count` items and discards them, errors included. -/
def skip : (count : Nat) → Cursor → Call α (Outcome StreamError Unit × Cursor)
  | 0, c => pure (.ok (), c)
  | count + 1, c => do
    match ← c.read (α := α) with
    | (.error (.panic p), c) => return (.panic p, c)
    | (_, c) => c.skip count

end Cursor

def Hook.apply (w : Switches α) (j : Janitor) (c : Cursor) :
    Hook → Call α (Outcome StreamError Cursor)
  | .plain => pure (.ok (.managed j false c))
  | .raw => pure (.ok c)
  | .seek position =>
    let c := Cursor.managed j false c
    return .ok ((c.seek position).toOption.getD c)
  | .skip count => do
    match ← (Cursor.managed j false c).skip count with
    | (.ok (), c) => return .ok c
    | (.error stop, c) =>
      c.drop w
      return .error stop
  | .released => do
    let (outcome, c) ← (Cursor.managed j false c).release w
    return outcome.map fun _ => c
  | .doubled => pure (.ok (.managed j false (.managed j false c)))

namespace Provider

def openCursor (w : Switches α) : Provider → Call α (Outcome StreamError Cursor)
  | base slot id feed => do
    if (← get).baseClosed slot then return .raise (.providerClosed id)
    else return .ok (.plain feed id {})
  | managed slot statistics hook inner => do
    let j : Janitor := ⟨slot, statistics, inner⟩
    if ((← get).janitor slot).closed then return .raise (.providerClosed inner.id)
    match ← inner.openCursor w with
    | .error stop => return .error stop
    | .ok c =>
      onJanitor slot fun t => { t with openCursors := t.openCursors + 1 }
      onStatistics statistics (·.openCursor)
      if ((← get).janitor slot).released then
        onStatistics statistics (·.closeCursors 1)
        let (_, c) ← j.releaseCursor w (c.release w)
        c.drop w
        return .raise (.providerClosed inner.id)
      else hook.apply w j c
  | scripted slot script inner => do
    let call := ((← get).script slot).opens
    onScript slot fun t => { t with opens := t.opens + 1 }
    match ← (script.onOpen call).perform w slot with
    | .error stop => return .error stop
    | .ok () =>
      match ← inner.openCursor w with
      | .error stop => return .error stop
      | .ok c =>
        match ← (script.afterOpen call).perform w slot with
        | .error stop =>
          c.drop w
          return .error stop
        | .ok () =>
          match script.cursorRelease call with
          | none => return .ok c
          | some act => return .ok (.watched slot act c)

end Provider
end Replay
