import Replay.Source

/-!
A feed is a source with the buffer over it, if any. A cursor reads the buffer of its feed, and a chain
pulls from a cursor on an older feed, so the depth of a pull is bounded by the number of feeds.
-/
namespace Replay

/-- The source is none once it is dropped. -/
structure Feed (α : Type) where
  source : Option (Source α)
  tally : Tally := {}
  buffer : Option (Buffer α) := none

structure Feeds (α : Type) where
  cells : Array (Feed α) := #[]
  log : Array Event := #[]

namespace Feeds

variable {α β : Type}

def note (e : Event) (s : Feeds α) : Feeds α := { s with log := s.log.push e }

def source? (s : Feeds α) (feed : Nat) : Option (Source α) := s.cells[feed]?.bind (·.source)

def buffer? (s : Feeds α) (feed : Nat) : Option (Buffer α) := s.cells[feed]?.bind (·.buffer)

def modify (s : Feeds α) (feed : Nat) (f : Feed α → Feed α) : Feeds α :=
  { s with cells := s.cells.modify feed f }

theorem source?_eq {s : Feeds α} {feed : Nat} {c : Feed α} (h : s.cells[feed]? = some c) :
    s.source? feed = c.source := by
  simp [source?, h]

theorem buffer?_eq {s : Feeds α} {feed : Nat} {c : Feed α} (h : s.cells[feed]? = some c) :
    s.buffer? feed = c.buffer := by
  simp [buffer?, h]

@[simp] theorem log_modify (s : Feeds α) (feed : Nat) (f : Feed α → Feed α) :
    (s.modify feed f).log = s.log := rfl

theorem cell_modify {s : Feeds α} {feed : Nat} {c : Feed α} (h : s.cells[feed]? = some c)
    (f : Feed α → Feed α) : (s.modify feed f).cells[feed]? = some (f c) := by
  simp [modify, Array.getElem?_modify, h]

def setSource (s : Feeds α) (feed : Nat) (source : Option (Source α)) : Feeds α :=
  s.modify feed fun c => { c with source }

def setBuffer (s : Feeds α) (feed : Nat) (buffer : Option (Buffer α)) : Feeds α :=
  s.modify feed fun c => { c with buffer }

theorem buffer?_setBuffer {s : Feeds α} {feed : Nat} (h : feed < s.cells.size)
    (b : Option (Buffer α)) : (s.setBuffer feed b).buffer? feed = b := by
  simp [buffer?, setBuffer, modify, Array.getElem_modify, h]

theorem buffer?_setBuffer_of_ne {s : Feeds α} {feed other : Nat} (h : feed ≠ other)
    (b : Option (Buffer α)) : (s.setBuffer feed b).buffer? other = s.buffer? other := by
  simp [buffer?, setBuffer, modify, Array.getElem?_modify, h]

def count (s : Feeds α) (feed : Nat) (f : Tally → Tally) : Feeds α :=
  s.modify feed fun c => { c with tally := f c.tally }

abbrev Draw (α : Type) := Nat → Feeds α → Pull α × Feeds α

def tap (draw : Draw α) (feed : Nat) : Tap α (Feeds α) := ⟨draw feed, note⟩

/-- Runs `f` on the buffer of a feed; a missing buffer counts as closed. -/
def onBuffer (feed : Nat) (f : Buffer α → Feeds α → Outcome StreamError β × Buffer α × Feeds α)
    (s : Feeds α) : Outcome StreamError β × Feeds α :=
  match s.buffer? feed with
  | none => (.raise .bufferClosed, s)
  | some b =>
    let (r, b, s) := f b (s.setBuffer feed none)
    (r, s.setBuffer feed (some b))

end Feeds

namespace Cursor

variable {α : Type}

open Feeds

def hasNextBy (draw : Draw α) (s : Feeds α) : Cursor → Outcome StreamError Bool × Feeds α
  | plain feed _ head => s.onBuffer feed (head.hasNext (tap draw feed))
  | managed _ released inner =>
    if released then (.raise .cursorReleased, s) else inner.hasNextBy draw s
  | watched _ _ inner => inner.hasNextBy draw s

def nextBy (draw : Draw α) (s : Feeds α) : Cursor → Outcome StreamError α × Cursor × Feeds α
  | plain feed provider head =>
    match s.buffer? feed with
    | none => (.raise .bufferClosed, plain feed provider head, s)
    | some b =>
      let (r, head, b, s) := head.next (tap draw feed) b (s.setBuffer feed none)
      (r, plain feed provider head, s.setBuffer feed (some b))
  | managed janitor released inner =>
    if released then (.raise .cursorReleased, managed janitor released inner, s)
    else
      let (r, inner, s) := inner.nextBy draw s
      (r, managed janitor released inner, s)
  | watched slot act inner =>
    let (r, inner, s) := inner.nextBy draw s
    (r, watched slot act inner, s)

def stepBy (draw : Draw α) (s : Feeds α) (c : Cursor) :
    Outcome StreamError (Option α) × Cursor × Feeds α :=
  match c.hasNextBy draw s with
  | (.ok true, s) =>
    let (r, c, s) := c.nextBy draw s
    (r.map some, c, s)
  | (.ok false, s) => (.ok none, c, s)
  | (.error stop, s) => (.error stop, c, s)

def size (s : Feeds α) (c : Cursor) : Option Nat := (s.buffer? c.feed).bind Buffer.size

end Cursor

namespace Feeds

variable {α : Type}

/-- Pulls a source; a chain draws on older feeds. -/
def pullSource (draw : Draw α) (s : Feeds α) : Source α → Pull α × Source α × Nat × Feeds α
  | .iterator none => (.finished, .iterator none, 0, s)
  | .iterator (some it) =>
    match it.next with
    | (some a, it) => (.item a, .iterator (some it), 0, s)
    | (none, it) => (.finished, .iterator (some it), 0, s)
  | .script outcomes pulled hint closing =>
    (outcomes pulled, .script outcomes (pulled + 1) hint closing, 0, s)
  | .bytes source item =>
    let (r, source, reads) := source.pull
    (r.map item, .bytes source item, reads, s)
  | .chain c =>
    let (r, c, s) := c.stepBy draw s
    let r := match r with
      | .ok (some a) => .item a
      | .ok none => .finished
      | .error (.error e) => .failed (.failed e.message)
      | .error (.panic p) => .panicked p
    (r, .chain c, 0, s)

/-- Pulls a feed, through at most `depth` buffers. -/
def pull : (depth : Nat) → Draw α
  | 0, _, s => (.finished, s)
  | depth + 1, feed, s =>
    match s.source? feed with
    | none => (.finished, s)
    | some source =>
      let s := s.count feed fun t => { t with pulls := t.pulls + 1 }
      let (r, source, reads, s) := s.pullSource (pull depth) source
      let s := s.count feed fun t => { t with reads := t.reads + reads }
      (r, s.setSource feed (some source))

def draw : Draw α := fun feed s => pull s.cells.size feed s

def announced (s : Feeds α) : Source α → Option Nat
  | .chain c => c.size s
  | source => source.hint

def add (s : Feeds α) (source : Source α) : Nat × Feeds α :=
  (s.cells.size, { s with cells := s.cells.push { source := some source } })

end Feeds

namespace Cursor

variable {α : Type}

def hasNext (c : Cursor) (s : Feeds α) : Outcome StreamError Bool × Feeds α :=
  c.hasNextBy Feeds.draw s

def next (c : Cursor) (s : Feeds α) : Outcome StreamError α × Cursor × Feeds α :=
  c.nextBy Feeds.draw s

def reader : Reader α (Cursor × Feeds α) := ⟨fun (c, s) => c.stepBy Feeds.draw s⟩

end Cursor
end Replay
