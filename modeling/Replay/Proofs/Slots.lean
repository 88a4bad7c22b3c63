import Mathlib.Order.Hom.Basic
import Replay.Proofs.Layout

/-!
The slots of a layout are the offsets in order. Both sizes may be zero: then the first bucket, or every
later one, has no slot.
-/
namespace Replay

namespace Position

theorem lt_trichotomy (p q : Position) : p < q ∨ p = q ∨ q < p := by
  obtain ⟨bucket, item⟩ := p
  obtain ⟨bucket', item'⟩ := q
  simp only [lt_iff, mk.injEq]
  omega

end Position

namespace Layout

variable {l : Layout} {g h : Nat} {p q : Position}

theorem locate_slot (hroom : p.item < l.capacity p.bucket) :
    l.locate (l.start p.bucket + p.item) = some p :=
  locate_eq_some_iff.mpr ⟨hroom, rfl⟩

theorem start_le_of_locate (hp : l.locate g = some p) : l.start p.bucket ≤ g := by
  obtain ⟨-, rfl⟩ := locate_eq_some_iff.mp hp
  exact Nat.le_add_right _ _

theorem lt_start_of_locate (hp : l.locate g = some p) : g < l.start (p.bucket + 1) := by
  obtain ⟨hroom, rfl⟩ := locate_eq_some_iff.mp hp
  rw [start_succ]
  exact Nat.add_lt_add_left hroom _

theorem locate_inj (hp : l.locate g = some p) (hq : l.locate h = some p) : g = h := by
  obtain ⟨-, rfl⟩ := locate_eq_some_iff.mp hp
  exact (locate_eq_some_iff.mp hq).2

theorem lt_of_slot_lt (hp : l.locate g = some p) (hq : l.locate h = some q) (hlt : p < q) : g < h := by
  rcases Position.lt_iff.mp hlt with hbucket | ⟨hbucket, hitem⟩
  · calc g < l.start (p.bucket + 1) := lt_start_of_locate hp
      _ ≤ l.start q.bucket := l.start_mono hbucket
      _ ≤ h := start_le_of_locate hq
  · obtain ⟨-, rfl⟩ := locate_eq_some_iff.mp hp
    obtain ⟨-, rfl⟩ := locate_eq_some_iff.mp hq
    rw [hbucket]
    exact Nat.add_lt_add_left hitem _

theorem slot_lt_iff (hp : l.locate g = some p) (hq : l.locate h = some q) : p < q ↔ g < h := by
  refine ⟨lt_of_slot_lt hp hq, fun hlt => ?_⟩
  rcases Position.lt_trichotomy p q with hpq | rfl | hqp
  · exact hpq
  · exact absurd (locate_inj hp hq) hlt.ne
  · exact absurd (lt_of_slot_lt hq hp hqp) hlt.asymm

theorem slot_le_iff (hp : l.locate g = some p) (hq : l.locate h = some q) : p ≤ q ↔ g ≤ h := by
  rw [Position.le_iff, slot_lt_iff hp hq, Nat.le_iff_lt_or_eq]
  refine or_congr_right ⟨?_, ?_⟩
  · rintro rfl
    exact locate_inj hp hq
  · rintro rfl
    exact Option.some.inj (hp.symm.trans hq)

theorem locate_succ (hp : l.locate g = some p) :
    l.locate (g + 1) =
      if p.item + 1 < l.capacity p.bucket then some ⟨p.bucket, p.item + 1⟩
      else if l.grows then some ⟨p.bucket + 1, 0⟩ else none := by
  obtain ⟨hroom, rfl⟩ := locate_eq_some_iff.mp hp
  split
  · rename_i hnext
    exact locate_eq_some_iff.mpr ⟨hnext, rfl⟩
  · rename_i hlast
    -- the last slot of a bucket: the next offset starts the next bucket, if there is one
    have hstart : l.start p.bucket + p.item + 1 = l.start (p.bucket + 1) := by
      rw [start_succ]
      omega
    rw [hstart]
    split
    · rename_i hgrows
      refine locate_eq_some_iff.mpr ⟨?_, rfl⟩
      simpa [capacity, grows] using hgrows
    · rename_i hflat
      refine locate_none.mpr ⟨by simpa [grows] using hflat, ?_⟩
      rw [start_add_one]
      exact Nat.le_add_right _ _

theorem bucket_le_of_locate (hp : l.locate g = some p) : p.bucket ≤ g + 1 := by
  have hstart := start_le_of_locate hp
  obtain ⟨hroom, -⟩ := locate_eq_some_iff.mp hp
  cases hbucket : p.bucket with
  | zero => exact Nat.zero_le _
  | succ bucket =>
    have hgrows : 0 < l.increment := Nat.zero_lt_of_lt (by simpa [capacity, hbucket] using hroom)
    have hbuckets := Nat.le_mul_of_pos_right bucket hgrows
    rw [hbucket, start_add_one] at hstart
    omega

abbrev Placed (l : Layout) : Type := {g // (l.locate g).isSome}

abbrev Slot (l : Layout) : Type := {p : Position // p.item < l.capacity p.bucket}

/-- `locate` as an isomorphism of orders. -/
def slots (l : Layout) : l.Placed ≃o l.Slot where
  toFun g := ⟨(l.locate g).get g.2, (locate_eq_some_iff.mp (Option.some_get g.2).symm).1⟩
  invFun p := ⟨l.start p.1.bucket + p.1.item, Option.isSome_of_eq_some (locate_slot p.2)⟩
  left_inv g := Subtype.ext (locate_eq_some_iff.mp (Option.some_get g.2).symm).2
  right_inv p := Subtype.ext (Option.get_of_eq_some _ (locate_slot p.2))
  map_rel_iff' := slot_le_iff (Option.some_get _).symm (Option.some_get _).symm

theorem locate_placed (g : l.Placed) : l.locate g = some (l.slots g).1 := (Option.some_get g.2).symm

/-- `locate` is injective, onto the slots, and monotone; consecutive offsets lie in neighbouring slots.
The place in a bucket is the offset less the start of the bucket, so apart from the bucket number, which
exceeds the offset by one at most, no intermediate result is larger than the offset. -/
structure Sequential (l : Layout) : Prop where
  located : ∀ g p, l.locate g = some p ↔ p.item < l.capacity p.bucket ∧ l.start p.bucket + p.item = g
  beyond : ∀ g, l.locate g = none ↔ l.increment = 0 ∧ l.initial ≤ g
  isomorphic : ∃ e : l.Placed ≃o l.Slot, ∀ g : l.Placed, l.locate g = some (e g).1
  injective : ∀ g h p, l.locate g = some p → l.locate h = some p → g = h
  hit : ∀ p, p.item < l.capacity p.bucket → ∃ g, l.locate g = some p
  ordered : ∀ g h p q, l.locate g = some p → l.locate h = some q → (p < q ↔ g < h)
  next : ∀ g p q, l.locate g = some p → l.locate (g + 1) = some q →
    q = ⟨p.bucket, p.item + 1⟩ ∨ p.item + 1 = l.capacity p.bucket ∧ q = ⟨p.bucket + 1, 0⟩
  bounded : ∀ g p, l.locate g = some p →
    l.start p.bucket ≤ g ∧ p.item = g - l.start p.bucket ∧ p.bucket ≤ g + 1

theorem sequential (l : Layout) : l.Sequential where
  located g p := locate_eq_some_iff
  beyond g := locate_none
  isomorphic := ⟨l.slots, locate_placed⟩
  injective g h p := locate_inj
  hit p hroom := ⟨_, locate_slot hroom⟩
  ordered g h p q := slot_lt_iff
  next g p q hp hq := by
    obtain ⟨hroom, -⟩ := locate_eq_some_iff.mp hp
    rw [locate_succ hp] at hq
    split at hq
    · exact .inl (Option.some.inj hq).symm
    · split at hq
      · exact .inr ⟨by omega, (Option.some.inj hq).symm⟩
      · cases hq
  bounded g p hp := by
    obtain ⟨-, hstart⟩ := locate_eq_some_iff.mp hp
    exact ⟨start_le_of_locate hp, by omega, bucket_le_of_locate hp⟩

example : (List.range 6).map (locate ⟨2, 3⟩) =
    [some ⟨0, 0⟩, some ⟨0, 1⟩, some ⟨1, 0⟩, some ⟨1, 1⟩, some ⟨1, 2⟩, some ⟨2, 0⟩] := by decide

end Layout
end Replay
