import Mathlib.Data.List.Basic
import Replay.Buffer
import Replay.Proofs.Layout

/-!
The contents of the buckets. A buffer that has kept the items `xs` holds them in slices given by its
layout, one to each bucket; no bucket is empty, and only the last may have room. Allocating a bucket and
storing an item are followed separately.
-/
namespace Replay

variable {α : Type}

/-- The slice of `xs` that the layout gives to one bucket. -/
def Layout.cut (l : Layout) (xs : List α) (index : Nat) : Bucket α :=
  ⟨index, l.capacity index, ((xs.drop (l.start index)).take (l.capacity index)).toArray⟩

namespace Layout

variable {l : Layout} {xs : List α} {index : Nat}

@[simp] theorem index_cut : (l.cut xs index).index = index := rfl

@[simp] theorem capacity_cut : (l.cut xs index).capacity = l.capacity index := rfl

theorem filled_cut : (l.cut xs index).filled = min (l.capacity index) (xs.length - l.start index) := by
  simp [cut, Bucket.filled]

theorem get?_cut {item : Nat} (h : item < l.capacity index) :
    (l.cut xs index).get? item = xs[l.start index + item]? := by
  simp [cut, Bucket.get?, List.getElem?_drop, h]

theorem isFull_cut (h : l.start index ≤ xs.length) :
    (l.cut xs index).isFull ↔ l.start (index + 1) ≤ xs.length := by
  rw [start_succ]
  simp only [Bucket.isFull, filled_cut, capacity_cut, beq_iff_eq]
  omega

theorem contains_cut {p : Position} : (l.cut xs index).contains p ↔
    p.bucket = index ∧ p.item < l.capacity index ∧ l.start index + p.item < xs.length := by
  rw [Bucket.contains_iff, index_cut, filled_cut, Nat.lt_min]
  omega

theorem cut_of_le (h : xs.length ≤ l.start index) :
    l.cut xs index = ⟨index, l.capacity index, #[]⟩ := by
  simp [cut, List.drop_eq_nil_of_le h]

theorem cut_append (h : l.start (index + 1) ≤ xs.length) (ys : List α) :
    l.cut (xs ++ ys) index = l.cut xs index := by
  rw [start_succ] at h
  unfold cut
  rw [List.drop_append_of_le_length (by omega), List.take_append_of_le_length (by simp; omega)]

theorem push_cut (hstart : l.start index ≤ xs.length) (hend : xs.length < l.start (index + 1))
    (a : α) : (l.cut xs index).push a = l.cut (xs ++ [a]) index := by
  rw [start_succ] at hend
  have hroom : (l.cut xs index).isFull = false := by
    rw [← Bool.not_eq_true, isFull_cut hstart, start_succ]
    omega
  have htake : (xs.drop (l.start index)).take (l.capacity index) = xs.drop (l.start index) :=
    List.take_of_length_le (by simp; omega)
  have htake' : ((xs ++ [a]).drop (l.start index)).take (l.capacity index) =
      xs.drop (l.start index) ++ [a] := by
    rw [List.drop_append_of_le_length hstart]
    exact List.take_of_length_le (by simp; omega)
  unfold Bucket.push
  simp only [hroom, Bool.false_eq_true, if_false]
  simp only [cut, htake, htake']
  simp

end Layout

namespace Buffer

/-- The buckets hold `xs` along the layout; the last may be empty. -/
structure Lays (b : Buffer α) (xs : List α) : Prop where
  consumed : b.consumed = xs.length
  bucket : ∀ index < b.buckets.size, b.bucket? index = some (b.layout.cut xs index)
  reached : ∀ index < b.buckets.size, b.layout.start index ≤ xs.length
  above : xs.length ≤ b.layout.start b.buckets.size

structure Holds (b : Buffer α) (xs : List α) : Prop extends Lays b xs where
  below : ∀ index < b.buckets.size, b.layout.start index < xs.length

/-- All buckets are published in order, and the last is being filled. -/
structure Listed (b : Buffer α) : Prop where
  published : b.published = Array.range b.buckets.size
  current : b.current = b.published.back?

variable {b : Buffer α} {xs : List α}

theorem Listed.current_eq (h : b.Listed) :
    b.current = if b.buckets.size = 0 then none else some (b.buckets.size - 1) := by
  rw [h.current, h.published, Array.back?_eq_getElem?, Array.size_range]
  split
  · simp_all
  · rw [Array.getElem?_eq_getElem (by simp; omega)]
    simp

theorem Listed.filling_eq (h : b.Listed) (hl : b.Lays xs) :
    b.filling? =
      if b.buckets.size = 0 then none else some (b.layout.cut xs (b.buckets.size - 1)) := by
  unfold filling?
  rw [h.current_eq]
  split
  · rfl
  · exact hl.bucket _ (by omega)

theorem Listed.nextIndex_eq (h : b.Listed) (hl : b.Lays xs) : b.nextIndex = b.buckets.size := by
  unfold nextIndex
  rw [h.filling_eq hl]
  split
  · rename_i k hk
    split at hk
    · cases hk
    · cases hk
      simp only [Layout.index_cut]
      omega
  · rename_i hk
    split at hk
    · omega
    · cases hk

theorem Listed.hasRoom_iff (h : b.Listed) (hl : b.Lays xs) :
    b.hasRoom ↔ xs.length < b.layout.start b.buckets.size := by
  unfold hasRoom
  rw [h.filling_eq hl]
  split
  · rename_i hsize
    simp [hsize]
  · rename_i hsize
    have hreached := hl.reached (b.buckets.size - 1) (by omega)
    have hfull := Layout.isFull_cut hreached
    rw [Nat.sub_add_cancel (by omega)] at hfull
    simp only [Option.any_some, Bool.not_eq_true', ← Bool.not_eq_true, hfull]
    omega

theorem Listed.allocate (h : b.Listed) (hl : b.Lays xs)
    (hfull : xs.length = b.layout.start b.buckets.size) :
    b.allocate.Listed ∧ b.allocate.Lays xs := by
  have hnext := h.nextIndex_eq hl
  refine ⟨⟨?_, ?_⟩, hl.consumed, ?_, ?_, ?_⟩
  · simp [Buffer.allocate, h.published, Array.range_succ]
  · simp [Buffer.allocate]
  · intro index hindex
    simp only [Buffer.allocate, Array.size_push, bucket?] at hindex ⊢
    rcases Nat.lt_succ_iff_lt_or_eq.mp hindex with hlt | rfl
    · rw [Array.getElem?_push_lt hlt, ← Array.getElem?_eq_getElem hlt]
      exact hl.bucket index hlt
    · rw [Array.getElem?_push_size, hnext, Layout.cut_of_le hfull.le]
  · intro index hindex
    rw [hfull]
    exact b.layout.start_mono (Nat.lt_succ_iff.mp (by simpa [Buffer.allocate] using hindex))
  · have hstep := b.layout.start_mono (Nat.le_succ b.buckets.size)
    simpa [Buffer.allocate, hfull] using hstep

theorem Listed.store (h : b.Listed) (hl : b.Lays xs) (hroom : b.hasRoom) (a : α) :
    (b.store a).Listed ∧ (b.store a).Holds (xs ++ [a]) := by
  rw [h.hasRoom_iff hl] at hroom
  have hsize : b.buckets.size ≠ 0 := by
    intro hzero
    rw [hzero] at hroom
    simp at hroom
  have hcurrent : b.current = some (b.buckets.size - 1) := by
    rw [h.current_eq, if_neg hsize]
  have hbuckets : (b.store a).buckets = b.buckets.modify (b.buckets.size - 1) (·.push a) := by
    simp [Buffer.store, hcurrent]
  have hcount : (b.store a).buckets.size = b.buckets.size := by simp [hbuckets]
  have hbelow : ∀ index < (b.store a).buckets.size,
      (b.store a).layout.start index < (xs ++ [a]).length := by
    intro index hindex
    rw [hcount] at hindex
    rw [List.length_append]
    exact Nat.lt_succ_of_le (hl.reached index hindex)
  refine ⟨⟨?_, ?_⟩, ⟨?_, ?_, fun index hindex => (hbelow index hindex).le, ?_⟩, hbelow⟩
  · rw [hcount]
    exact h.published
  · exact h.current
  · simp [Buffer.store, hl.consumed]
  · intro index hindex
    rw [hcount] at hindex
    change (b.store a).buckets[index]? = some (b.layout.cut (xs ++ [a]) index)
    rw [hbuckets, Array.getElem?_modify]
    have hold : b.buckets[index]? = some (b.layout.cut xs index) := hl.bucket index hindex
    rw [hold]
    split
    · rename_i hlast
      subst hlast
      rw [Option.map_some, Layout.push_cut (hl.reached _ hindex)]
      rwa [Nat.sub_add_cancel (by omega)]
    · rename_i hlast
      rw [Layout.cut_append]
      exact hl.reached (index + 1) (by omega)
  · rw [hcount, List.length_append]
    exact hroom

/-- Without an increment there is at most one bucket, as none is empty. -/
theorem Holds.size_le_one (h : b.Holds xs) (hflat : b.layout.increment = 0) :
    b.buckets.size ≤ 1 := by
  by_contra hsize
  have hbelow := h.below 1 (by omega)
  have habove := h.above
  have hstart := b.layout.start_le_initial hflat b.buckets.size
  rw [Layout.start_one] at hbelow
  omega

theorem Holds.exists_slot (h : b.Holds xs) {offset : Nat} (hlt : offset < xs.length) :
    ∃ p, b.layout.locate offset = some p ∧ p.bucket < b.buckets.size ∧
      (b.layout.cut xs p.bucket).contains p ∧
      (b.layout.cut xs p.bucket).get? p.item = some xs[offset] := by
  obtain ⟨p, hp, hbucket⟩ := Layout.exists_locate_of_lt_start (Nat.lt_of_lt_of_le hlt h.above)
  obtain ⟨hitem, hstart⟩ := Layout.locate_eq_some_iff.mp hp
  refine ⟨p, hp, hbucket, ?_, ?_⟩
  · rw [Layout.contains_cut, hstart]
    exact ⟨rfl, hitem, hlt⟩
  · rw [Layout.get?_cut hitem, hstart]
    exact List.getElem?_eq_getElem hlt

theorem lt_size_of_bucket? {held : Nat} {k : Bucket α} (hk : b.bucket? held = some k) :
    held < b.buckets.size := by
  by_contra hge
  rw [bucket?, Array.getElem?_eq_none (Nat.le_of_not_lt hge)] at hk
  cases hk

theorem Holds.of_contains (h : b.Holds xs) {held offset : Nat} {k : Bucket α} {p : Position}
    (hk : b.bucket? held = some k) (hp : b.layout.locate offset = some p) (hc : k.contains p) :
    ∃ hlt : offset < xs.length, k.get? p.item = some xs[offset] := by
  have hheld := lt_size_of_bucket? hk
  rw [h.bucket held hheld, Option.some.injEq] at hk
  subst hk
  obtain ⟨hitem, hstart⟩ := Layout.locate_eq_some_iff.mp hp
  obtain ⟨rfl, -, hlt⟩ := Layout.contains_cut.mp hc
  rw [hstart] at hlt
  refine ⟨hlt, ?_⟩
  rw [Layout.get?_cut hitem, hstart]
  exact List.getElem?_eq_getElem hlt

theorem Holds.held_eq (h : b.Holds xs) {held : Nat} {k : Bucket α} {p : Position}
    (hk : b.bucket? held = some k) (hc : k.contains p) : held = p.bucket := by
  have hheld := lt_size_of_bucket? hk
  rw [h.bucket held hheld, Option.some.injEq] at hk
  subst hk
  exact (Layout.contains_cut.mp hc).1.symm

theorem Holds.item? {c : Buffer α} {ys : List α} (h : b.Holds xs) (h' : c.Holds ys)
    (hl : c.layout = b.layout) (hxy : xs <+: ys) {held : Nat} {p : Position} {a : α}
    (ha : b.item? held p = some a) : c.item? held p = some a := by
  simp only [Buffer.item?, Option.bind_eq_some_iff] at ha ⊢
  obtain ⟨k, hk, ha⟩ := ha
  have hheld := lt_size_of_bucket? hk
  have hbelow := h.below held hheld
  have hheld' : held < c.buckets.size := by
    by_contra hge
    have hstart := c.layout.start_mono (Nat.le_of_not_lt hge)
    have habove := h'.above
    have hlength := hxy.length_le
    rw [hl] at hstart habove
    omega
  rw [h.bucket held hheld, Option.some.injEq] at hk
  subst hk
  have hitem : p.item < b.layout.capacity held := by
    have hfilled := Bucket.isSome_get?.mp (Option.isSome_of_eq_some ha)
    rw [Layout.filled_cut] at hfilled
    omega
  refine ⟨_, h'.bucket held hheld', ?_⟩
  rw [Layout.get?_cut hitem] at ha
  rw [hl, Layout.get?_cut hitem]
  obtain ⟨rest, rfl⟩ := hxy
  obtain ⟨hlt, -⟩ := List.getElem?_eq_some_iff.mp ha
  rwa [List.getElem?_append_left hlt]

theorem Listed.shown?_eq (h : b.Listed) {p : Position} {k : Bucket α}
    (hsize : p.bucket < b.buckets.size) (hk : b.bucket? p.bucket = some k) (hc : k.contains p) :
    b.shown? p = some p.bucket := by
  have hpublished : b.published[p.bucket]? = some p.bucket := by
    rw [h.published, Array.getElem?_range, if_pos hsize]
  simp [shown?, hpublished, hk, hc]

theorem contains_of_shown? {p : Position} {held : Nat} (h : b.shown? p = some held) :
    ∃ k, b.bucket? held = some k ∧ k.contains p := by
  obtain ⟨-, hany⟩ := Option.filter_eq_some_iff.mp h
  exact (Option.any_eq_true _ _).mp hany

end Buffer
end Replay
