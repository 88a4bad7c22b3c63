import Replay.Source.Bytes

/-!
The pulls of a byte source taken together. They flatten the reads of its device, whatever the scratch
buffer held before.
-/
namespace Replay
namespace Read

/-- A read of no bytes, as at the end of the device. -/
def empty : Read := chunk [] (Nat.zero_le room)

/-- The pulls that one read gives rise to. -/
def toPulls : Read → List (Pull UInt8)
  | chunk bytes _ => if bytes = [] then [.finished] else bytes.map .item
  | interrupted => []
  | failed message => [.failed (.io message)]
  | panicked p => [.panicked p]

def first : Nat → List Read → List Read
  | 0, _ => []
  | count + 1, [] => empty :: first count []
  | count + 1, read :: rest => read :: first count rest

theorem first_add (a b : Nat) (reads : List Read) :
    first (a + b) reads = first a reads ++ first b (reads.drop a) := by
  induction a generalizing reads with
  | zero => simp [first]
  | succ a ih =>
    rw [Nat.succ_add]
    cases reads with
    | nil => rw [first, ih, first, List.drop_nil, List.drop_nil, List.cons_append]
    | cons read rest => rw [first, ih, first, List.drop_succ_cons, List.cons_append]

theorem pulled_first (count : Nat) (reads : List Read) :
    (first count reads).flatMap toPulls <+:
      reads.flatMap toPulls ++ List.replicate count Pull.finished := by
  induction count generalizing reads with
  | zero => exact List.nil_prefix
  | succ count ih =>
    cases reads with
    | nil => exact (List.prefix_append_right_inj [Pull.finished]).mpr (ih [])
    | cons read rest =>
      rw [first, List.flatMap_cons, List.flatMap_cons, List.append_assoc]
      refine (List.prefix_append_right_inj read.toPulls).mpr ((ih rest).trans ?_)
      rw [List.replicate_succ', ← List.append_assoc]
      exact List.prefix_append _ _

end Read

@[simp] theorem Scratch.take_write (scratch : Scratch) (bytes : List UInt8)
    (fits : bytes.length ≤ Read.room) : (scratch.write bytes fits).toList.take bytes.length = bytes := by
  simp [write, Vector.toList]

namespace ByteSource

variable {s : ByteSource} {d : Device}

/-- The pulls that a refill gives rise to. -/
def pulled : Outcome SourceError (List UInt8) → List (Pull UInt8)
  | .ok bytes => if bytes = [] then [.finished] else bytes.map .item
  | .error (.error e) => [.failed e]
  | .error (.panic p) => [.panicked p]

theorem pulled_refill (scratch : Scratch) (reads : List Read) :
    pulled (refill scratch reads).1 = (Read.first (refill scratch reads).2.2 reads).flatMap Read.toPulls ∧
      (refill scratch reads).2.1.reads = reads.drop (refill scratch reads).2.2 := by
  induction reads with
  | nil => exact ⟨rfl, rfl⟩
  | cons read rest ih =>
    cases read with
    | chunk bytes fits => simp [refill, pulled, Read.first, Read.toPulls]
    | interrupted =>
      obtain ⟨hpulled, hrest⟩ := ih
      simp only [refill, Read.first, List.flatMap_cons, Read.toPulls, List.nil_append, List.drop_succ_cons]
      exact ⟨hpulled, hrest⟩
    | failed message => exact ⟨rfl, rfl⟩
    | panicked p => exact ⟨rfl, rfl⟩

theorem pull_open (hopen : s.device = some d) :
    ∃ scratch, s.pull.2.1.device = some ⟨d.reads.drop s.pull.2.2, scratch⟩ ∧
      s.pull.1 :: s.pull.2.1.pending.map .item =
        s.pending.map .item ++ (Read.first s.pull.2.2 d.reads).flatMap Read.toPulls := by
  obtain ⟨device, pending⟩ := s
  cases hopen
  cases pending with
  | cons byte pending => exact ⟨d.scratch, rfl, by simp [pull, Read.first]⟩
  | nil =>
    obtain ⟨hpulled, hreads⟩ := pulled_refill d.scratch d.reads
    rcases hfill : refill d.scratch d.reads with ⟨got, rest, count⟩
    rw [hfill] at hpulled hreads
    have hrest : rest = ⟨d.reads.drop count, rest.scratch⟩ := by rw [← hreads]
    rcases got with (e | p) | _ | ⟨byte, pending⟩ <;>
      simp only [pull, hfill] <;> exact ⟨rest.scratch, congrArg some hrest, hpulled⟩

theorem pending_of_reads (h : 0 < s.pull.2.2) : s.pending = [] := by
  obtain ⟨device, pending⟩ := s
  cases pending with
  | nil => rfl
  | cons byte pending => exact absurd h (Nat.lt_irrefl 0)

/-- Some pulls: their outcomes, the source after them, and the reads they took. -/
def pulls : Nat → ByteSource → List (Pull UInt8) × ByteSource × Nat
  | 0, s => ([], s, 0)
  | n + 1, s =>
    let (r, s, count) := s.pull
    let (rs, s, more) := pulls n s
    (r :: rs, s, count + more)

theorem length_pulls (n : Nat) (s : ByteSource) : (s.pulls n).1.length = n := by
  induction n generalizing s with
  | zero => rfl
  | succ n ih => rw [pulls, List.length_cons, ih]

theorem pulls_open (n : Nat) (hopen : s.device = some d) :
    ∃ scratch, (s.pulls n).2.1.device = some ⟨d.reads.drop (s.pulls n).2.2, scratch⟩ ∧
      (s.pulls n).1 ++ (s.pulls n).2.1.pending.map .item =
        s.pending.map .item ++ (Read.first (s.pulls n).2.2 d.reads).flatMap Read.toPulls := by
  induction n generalizing s d with
  | zero => exact ⟨d.scratch, hopen, by simp [pulls, Read.first]⟩
  | succ n ih =>
    obtain ⟨_, hnext, hpull⟩ := pull_open hopen
    obtain ⟨scratch, hdevice, hpulls⟩ := ih hnext
    refine ⟨scratch, ?_, ?_⟩
    · rw [pulls, hdevice, List.drop_drop]
    · calc (s.pulls (n + 1)).1 ++ (s.pulls (n + 1)).2.1.pending.map .item
          = s.pull.1 :: ((s.pull.2.1.pulls n).1 ++ (s.pull.2.1.pulls n).2.1.pending.map .item) := rfl
        _ = (s.pull.1 :: s.pull.2.1.pending.map .item) ++
              (Read.first (s.pull.2.1.pulls n).2.2 (d.reads.drop s.pull.2.2)).flatMap Read.toPulls := by
          rw [hpulls, List.cons_append]
        _ = s.pending.map .item ++ (Read.first (s.pulls (n + 1)).2.2 d.reads).flatMap Read.toPulls := by
          rw [hpull, List.append_assoc, ← List.flatMap_append, ← Read.first_add]
          rfl

theorem pulls_close (n : Nat) (s : ByteSource) :
    s.close.pulls n = (List.replicate n .finished, s.close, 0) := by
  induction n with
  | zero => rfl
  | succ n ih => simp only [pulls, close_pull, ih, List.replicate_succ, Nat.zero_add]

theorem refill_panicked {scratch : Scratch} {reads : List Read} {p : Panic} {count : Nat}
    (h : refill scratch reads = (.panic p, d, count)) :
    ∃ interruptions, reads = List.replicate interruptions .interrupted ++ .panicked p :: d.reads ∧
      d.scratch = scratch := by
  induction reads generalizing count with
  | nil => cases h
  | cons read rest ih =>
    cases read with
    | chunk bytes fits => cases h
    | interrupted =>
      rcases hrest : refill scratch rest with ⟨got, device, made⟩
      rw [refill, hrest] at h
      cases h
      obtain ⟨interruptions, hreads, hscratch⟩ := ih hrest
      exact ⟨interruptions + 1, by rw [hreads, List.replicate_succ, List.cons_append], hscratch⟩
    | failed message => cases h
    | panicked q =>
      cases h
      exact ⟨0, rfl, rfl⟩

theorem pull_panicked {p : Panic} (hopen : s.device = some d) (h : s.pull.1 = .panicked p) :
    ∃ interruptions rest, d.reads = List.replicate interruptions .interrupted ++ .panicked p :: rest ∧
      s.pull.2.1 = { s with device := some { d with reads := rest } } := by
  obtain ⟨device, pending⟩ := s
  cases hopen
  cases pending with
  | cons byte pending => cases h
  | nil =>
    rcases hfill : refill d.scratch d.reads with ⟨got, device, count⟩
    rcases got with (e | q) | _ | ⟨byte, pending⟩ <;> simp only [pull, hfill] at h ⊢ <;> cases h
    obtain ⟨interruptions, hreads, hscratch⟩ := refill_panicked hfill
    exact ⟨interruptions, device.reads, hreads, by rw [← hscratch]⟩

/-- The pulls bring the bytes of the reads in order, and then the end. A read is made only when no bytes
are pending, none is skipped or repeated, and the contents of the scratch buffer are irrelevant. A panic
leaves the source usable, and close ends it. -/
theorem pulls_flatten (reads : List Read) (scratch : Scratch) (n : Nat) :
    let run := pulls n ⟨some ⟨reads, scratch⟩, []⟩
    run.1 = (reads.flatMap Read.toPulls ++ List.replicate n Pull.finished).take n ∧
      run.1 ++ run.2.1.pending.map .item = (Read.first run.2.2 reads).flatMap Read.toPulls ∧
      (∃ d, run.2.1.device = some d ∧ d.reads = reads.drop run.2.2 ∧
        ∀ p, run.2.1.pull.1 = .panicked p → ∃ interruptions rest,
          d.reads = List.replicate interruptions .interrupted ++ .panicked p :: rest ∧
          run.2.1.pull.2.1 = { run.2.1 with device := some { d with reads := rest } }) ∧
      (run.2.1.pending ≠ [] → run.2.1.pull.2.2 = 0) ∧
      ∀ m, run.2.1.close.pulls m = (List.replicate m .finished, run.2.1.close, 0) := by
  intro run
  obtain ⟨_, hdevice, hpulled⟩ := pulls_open (s := ⟨some ⟨reads, scratch⟩, []⟩) n rfl
  replace hpulled : run.1 ++ run.2.1.pending.map .item =
      (Read.first run.2.2 reads).flatMap Read.toPulls := hpulled
  have hlength : run.1.length = n := length_pulls n _
  refine ⟨?_, hpulled, ⟨_, hdevice, rfl, fun p => pull_panicked hdevice⟩, ?_, fun m => pulls_close m _⟩
  · have hprefix : run.1 <+: reads.flatMap Read.toPulls ++ List.replicate run.2.2 Pull.finished :=
      (hpulled ▸ List.prefix_append run.1 _ : run.1 <+: _).trans (Read.pulled_first run.2.2 reads)
    have hle := hprefix.length_le
    rw [hlength, List.length_append, List.length_replicate] at hle
    have htake := List.prefix_iff_eq_take.mp hprefix
    rw [hlength, List.take_append, List.take_replicate] at htake
    rw [htake, List.take_append, List.take_replicate]
    congr 2
    omega
  · exact fun hpending => Nat.eq_zero_of_not_pos fun hread => hpending (pending_of_reads hread)

example :
    let d : Device :=
      { reads := [.chunk [7, 8] (by decide), .interrupted, .failed "off", .chunk [] (by decide),
        .panicked ⟨none⟩, .chunk [9] (by decide)] }
    (pulls 6 ⟨some d, []⟩).1 =
      [.item 7, .item 8, .failed (.io "off"), .finished, .panicked ⟨none⟩, .item 9] := by
  rfl

end ByteSource
end Replay
