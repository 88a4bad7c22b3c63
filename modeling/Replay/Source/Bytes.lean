import Replay.Tap

/-!
Bytes read in chunks and pulled one at a time. An interrupted read is repeated; an empty read is the end
for now, and the next pull reads again. All reads use one scratch buffer, which is not cleared in
between.
-/
namespace Replay

/-- The size of the scratch buffer. -/
def Read.room : Nat := 8192

inductive Read where
  | chunk (bytes : List UInt8) (fits : bytes.length ≤ Read.room)
  | interrupted
  | failed (message : String)
  | panicked (p : Panic)

namespace Read

/-- The reads of the given bytes; no bytes are one empty read. -/
def ofBytes (bytes : List UInt8) : List Read :=
  if bytes.isEmpty then [chunk [] (Nat.zero_le room)]
  else (List.range ((bytes.length + room - 1) / room)).map fun i =>
    chunk ((bytes.drop (i * room)).take room) (List.length_take_le room _)

end Read

abbrev Scratch : Type := Vector UInt8 Read.room

/-- The scratch buffer after a chunk was written to its front. -/
def Scratch.write (scratch : Scratch) (bytes : List UInt8) (fits : bytes.length ≤ Read.room) :
    Scratch :=
  ⟨(bytes ++ scratch.toList.drop bytes.length).toArray, by simp; omega⟩

/-- The reads to come, and the scratch buffer. -/
structure Device where
  reads : List Read
  scratch : Scratch := Vector.replicate Read.room 0

instance : Coe (List Read) Device := ⟨fun reads => { reads }⟩

/-- The device, dropped on close, and the bytes read but not yet pulled. -/
structure ByteSource where
  device : Option Device
  pending : List UInt8 := []

namespace ByteSource

/-- Reads until the first read that is not interrupted: its result, the device after it, and the number
of reads. -/
def refill (scratch : Scratch) : List Read → Outcome SourceError (List UInt8) × Device × Nat
  | [] => (.ok [], ⟨[], scratch⟩, 1)
  | .chunk bytes fits :: rest =>
    let scratch := scratch.write bytes fits
    (.ok (scratch.toList.take bytes.length), ⟨rest, scratch⟩, 1)
  | .interrupted :: rest =>
    let (got, device, count) := refill scratch rest
    (got, device, count + 1)
  | .failed message :: rest => (.raise (.io message), ⟨rest, scratch⟩, 1)
  | .panicked p :: rest => (.panic p, ⟨rest, scratch⟩, 1)

def pull (s : ByteSource) : Pull UInt8 × ByteSource × Nat :=
  match s.pending, s.device with
  | byte :: pending, device => (.item byte, ⟨device, pending⟩, 0)
  | [], none => (.finished, ⟨none, []⟩, 0)
  | [], some device =>
    match refill device.scratch device.reads with
    | (.ok [], device, count) => (.finished, ⟨some device, []⟩, count)
    | (.ok (byte :: pending), device, count) => (.item byte, ⟨some device, pending⟩, count)
    | (.error (.error e), device, count) => (.failed e, ⟨some device, []⟩, count)
    | (.error (.panic p), device, count) => (.panicked p, ⟨some device, []⟩, count)

def close (s : ByteSource) : ByteSource := { s with device := none, pending := [] }

@[simp] theorem close_pull (s : ByteSource) : s.close.pull = (.finished, s.close, 0) := rfl

end ByteSource
end Replay
