import Mathlib.Order.Monotone.Basic
import Replay.Position

/-!
`locate` characterised: an offset lies in the slot `p` iff `p.item` is below the capacity of its bucket
and the offset is the start of the bucket plus `p.item`.
-/
namespace Replay.Layout

theorem start_add_one (l : Layout) (bucket : Nat) :
    l.start (bucket + 1) = l.initial + bucket * l.increment := by
  simp [start]

theorem start_mono (l : Layout) : Monotone l.start := by
  apply monotone_nat_of_le_succ
  intro bucket
  rw [start_succ]
  exact Nat.le_add_right _ _

theorem start_one (l : Layout) : l.start 1 = l.initial := by
  simp [start_add_one]

theorem capacity_pos {l : Layout} (hi : 0 < l.initial) {bucket : Nat}
    (h : bucket = 0 ∨ l.grows) : 0 < l.capacity bucket := by
  unfold capacity
  split
  · exact hi
  · rename_i hb
    simpa [grows, hb] using h

theorem start_le_initial {l : Layout} (h : l.increment = 0) (bucket : Nat) :
    l.start bucket ≤ l.initial := by
  cases bucket with
  | zero => simp
  | succ bucket => simp [start_add_one, h]

theorem locate_later {l : Layout} {offset : Nat} (hlater : l.initial ≤ offset) (hflat : l.increment ≠ 0) :
    l.locate offset = some ⟨(offset - l.initial) / l.increment + 1,
      offset - l.start ((offset - l.initial) / l.increment + 1)⟩ := by
  simp [locate, Nat.not_lt.mpr hlater, hflat, start_add_one]

theorem later_bucket_iff {l : Layout} {offset : Nat} (hlater : l.initial ≤ offset) (hflat : l.increment ≠ 0)
    (bucket : Nat) : (offset - l.initial) / l.increment = bucket ↔
      l.start (bucket + 1) ≤ offset ∧ offset < l.start (bucket + 1) + l.increment := by
  have hgrows := Nat.pos_of_ne_zero hflat
  rw [Nat.div_eq_iff hgrows, start_add_one]
  omega

theorem locate_eq_some_iff {l : Layout} {offset : Nat} {p : Position} :
    l.locate offset = some p ↔
      p.item < l.capacity p.bucket ∧ l.start p.bucket + p.item = offset := by
  obtain ⟨bucket, item⟩ := p
  by_cases hfirst : offset < l.initial
  · rw [locate_first hfirst]
    cases bucket with
    | zero =>
      simp only [capacity, start_zero, Option.some.injEq, Position.mk.injEq, if_true, true_and]
      omega
    | succ bucket =>
      rw [start_add_one]
      simp only [Option.some.injEq, Position.mk.injEq]
      omega
  · have hlater := Nat.le_of_not_lt hfirst
    by_cases hflat : l.increment = 0
    · rw [locate_none.mpr ⟨hflat, hlater⟩]
      cases bucket with
      | zero => simp [capacity]; omega
      | succ bucket => simp [capacity, hflat]
    · rw [locate_later hlater hflat]
      cases bucket with
      | zero =>
        simp only [capacity, start_zero, Option.some.injEq, Position.mk.injEq, if_true,
          Nat.add_one_ne_zero, false_and, false_iff]
        omega
      | succ bucket =>
        simp only [capacity, Option.some.injEq, Position.mk.injEq, Nat.add_one_ne_zero, if_false,
          Nat.add_right_cancel_iff]
        constructor
        · rintro ⟨hbucket, rfl⟩
          have hbounds := (later_bucket_iff hlater hflat bucket).mp hbucket
          rw [hbucket]
          omega
        · rintro ⟨hitem, hstart⟩
          have hbucket := (later_bucket_iff hlater hflat bucket).mpr (by omega)
          refine ⟨hbucket, ?_⟩
          rw [hbucket]
          omega

theorem exists_locate_of_lt_start {l : Layout} {offset count : Nat} (h : offset < l.start count) :
    ∃ p, l.locate offset = some p ∧ p.bucket < count := by
  induction count with
  | zero => simp at h
  | succ count ih =>
    by_cases hlt : offset < l.start count
    · obtain ⟨p, hp, hcount⟩ := ih hlt
      exact ⟨p, hp, Nat.lt_succ_of_lt hcount⟩
    · rw [start_succ] at h
      refine ⟨⟨count, offset - l.start count⟩, locate_eq_some_iff.mpr ?_, Nat.lt_succ_self _⟩
      exact ⟨by dsimp only; omega, by dsimp only; omega⟩

end Replay.Layout
