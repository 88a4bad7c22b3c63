import Mathlib.Algebra.GroupWithZero.Nat
import Replay.Proofs.Shared.Faithful

/-!
The representation invariant of a shared buffer: the published buckets follow the layout without gaps
and hold `consumed` items. It survives every failure and ends with close.
-/
namespace Replay

variable {α : Type}

namespace Buffer

def shown (b : Buffer α) : List (Bucket α) := b.published.toList.filterMap b.bucket?

structure Shaped (b : Buffer α) : Prop where
  held : b.shown.length = b.published.size
  placed : ∀ i k, b.shown[i]? = some k → k.index = i ∧ k.capacity = b.layout.capacity i
  full : ∀ i k, b.shown[i]? = some k → i + 1 < b.shown.length → k.isFull
  filled : ∀ k ∈ b.shown, 0 < k.filled
  empty_iff : b.shown = [] ↔ b.consumed = 0
  sum : (b.shown.map Bucket.filled).sum = b.consumed
  current : b.current = b.published.back?
  below : ∀ offset < b.consumed, ∃ p k, b.layout.locate offset = some p ∧
    b.shown[p.bucket]? = some k ∧ k.contains p
  above : ∀ offset p, b.consumed ≤ offset → b.layout.locate offset = some p →
    ∀ k ∈ b.shown, k.contains p = false
  single : b.layout.increment = 0 → b.shown.length ≤ 1

variable {b : Buffer α} {xs got : List α}

theorem Listed.shown_eq (h : b.Listed) (hl : b.Lays xs) :
    b.shown = (List.range b.buckets.size).map (b.layout.cut xs) := by
  unfold shown
  rw [h.published, Array.toList_range, ← List.filterMap_eq_map]
  apply List.filterMap_congr
  intro index hindex
  exact hl.bucket index (List.mem_range.mp hindex)

theorem sum_filled_cut (l : Layout) (xs : List α) (n : Nat) :
    ((List.range n).map fun index => (l.cut xs index).filled).sum = min xs.length (l.start n) := by
  induction n with
  | zero => simp
  | succ n ih =>
    rw [List.range_succ, List.map_append, List.sum_append, ih, Layout.start_succ]
    simp only [List.map_cons, List.map_nil, List.sum_cons, List.sum_nil, Layout.filled_cut]
    omega

theorem Sound.filled_pos (h : b.Sound got) {i : Nat} (hi : i < b.buckets.size) :
    0 < (b.layout.cut (got.take b.consumed) i).filled := by
  have hbelow := h.holds.below i hi
  have hcapacity : 0 < b.layout.capacity i := by
    apply Layout.capacity_pos h.initial
    by_cases hflat : b.layout.increment = 0
    · have hsize := h.holds.size_le_one hflat
      exact .inl (by omega)
    · exact .inr (by simpa [Layout.grows] using Nat.pos_of_ne_zero hflat)
  rw [Layout.filled_cut]
  omega

theorem Sound.size_eq_zero_iff (h : b.Sound got) : b.buckets.size = 0 ↔ b.consumed = 0 := by
  rw [h.holds.consumed]
  constructor
  · intro hsize
    have habove := h.holds.above
    rw [hsize, Layout.start_zero] at habove
    exact Nat.le_zero.mp habove
  · intro hzero
    by_contra hsize
    have hbelow := h.holds.below 0 (Nat.pos_of_ne_zero hsize)
    omega

theorem Sound.shaped (h : b.Sound got) : b.Shaped := by
  have hholds := h.holds
  have hshown := h.listed.shown_eq hholds.toLays
  have hlength : b.shown.length = b.buckets.size := by simp [hshown]
  have hget : ∀ i k, b.shown[i]? = some k →
      i < b.buckets.size ∧ k = b.layout.cut (got.take b.consumed) i := by
    intro i k hk
    rw [hshown, List.getElem?_map, Option.map_eq_some_iff] at hk
    obtain ⟨j, hj, rfl⟩ := hk
    obtain ⟨hi, rfl⟩ := List.getElem?_eq_some_iff.mp hj
    simpa using hi
  refine ⟨?_, ?_, ?_, ?_, ?_, ?_, h.listed.current, ?_, ?_, ?_⟩
  · rw [hlength, h.listed.published, Array.size_range]
  · intro i k hk
    obtain ⟨-, rfl⟩ := hget i k hk
    exact ⟨rfl, rfl⟩
  · intro i k hk hi
    obtain ⟨hi', rfl⟩ := hget i k hk
    rw [Layout.isFull_cut (hholds.below i hi').le]
    exact (hholds.below (i + 1) (hlength ▸ hi)).le
  · intro k hk
    obtain ⟨i, hi⟩ := List.getElem?_of_mem hk
    obtain ⟨hi', rfl⟩ := hget i k hi
    exact h.filled_pos hi'
  · rw [← List.length_eq_zero_iff, hlength]
    exact h.size_eq_zero_iff
  · have hsum := sum_filled_cut b.layout (got.take b.consumed) b.buckets.size
    rw [hshown, List.map_map, Function.comp_def, hsum, Nat.min_eq_left hholds.above,
      ← hholds.consumed]
  · intro offset hlt
    rw [hholds.consumed] at hlt
    obtain ⟨p, hp, hbucket, hcontains, -⟩ := hholds.exists_slot hlt
    exact ⟨p, _, hp, by simp [hshown, hbucket], hcontains⟩
  · intro offset p hle hp k hk
    obtain ⟨i, hi⟩ := List.getElem?_of_mem hk
    obtain ⟨-, rfl⟩ := hget i k hi
    obtain ⟨-, hstart⟩ := Layout.locate_eq_some_iff.mp hp
    rw [← Bool.not_eq_true, Layout.contains_cut]
    rintro ⟨rfl, -, hlt⟩
    rw [hstart, ← hholds.consumed] at hlt
    omega
  · intro hflat
    exact hlength ▸ hholds.size_le_one hflat

end Buffer

namespace Shared

def source? (s : Shared α) : Option (Source α) := s.store.feeds.source? s.feed

/-- In every reachable state of a shared buffer that is not closed, failed ones included, the buckets
satisfy the representation invariant. A closed buffer publishes no bucket, has no source and keeps its
`consumed`. -/
theorem shaped_or_closed (t : Supply α) (hvalid : t.config.validate = .ok ()) (m : Store α) :
    ∃ s, begin m t = (.ok (), s) ∧ ∀ us, ∃ b, (s.run us).2.buffer? = some b ∧
      b.layout = t.layout ∧ (.close ∉ us → b.Shaped) ∧
      (.close ∈ us → b.shown = [] ∧ b.current = none ∧ (s.run us).2.source? = none ∧
        ∀ vs, ∃ c, ((s.run us).2.run vs).2.buffer? = some c ∧ c.consumed = b.consumed) := by
  obtain ⟨s, hs, hreached⟩ := Supply.reached_begin hvalid m
  refine ⟨s, hs, fun us => ?_⟩
  obtain ⟨l, hl, h, -⟩ := hreached.run hvalid us
  have hclosed : l.closed ↔ .close ∈ us := by simpa using hl.closed_iff
  refine ⟨t.kept l, h.buffer?_eq, Supply.layout_kept hvalid h.atProgress.pulls, ?_, ?_⟩
  · intro hopen
    rw [← hclosed, Bool.not_eq_true] at hopen
    have hkept : t.kept l = t.buffer l.count := by simp [Supply.kept, hopen]
    rw [hkept]
    exact (Supply.sound_buffer hvalid h.atProgress.pulls).shaped
  · intro hclose
    rw [← hclosed] at hclose
    have hkept : t.kept l = (t.buffer l.count).close := by simp [Supply.kept, hclose]
    refine ⟨by simp [hkept, Buffer.shown], by rw [hkept]; rfl, ?_, ?_⟩
    · rw [source?, Feeds.source?_eq h.atProgress.cell]
      simp [Supply.cell, hclose]
    · intro vs
      obtain ⟨l', hl', h', -⟩ := h.run hvalid vs
      obtain rfl := hl'.eq_of_closed hclose
      exact ⟨_, h'.buffer?_eq, rfl⟩

theorem shaped_of_five :
    ∃ s, begin {} (.counting ⟨2, 3, .unbounded, .owned⟩ 5) = (.ok (), s) ∧
      ∀ us, ∃ b, (s.run us).2.buffer? = some b ∧ (.close ∉ us → b.Shaped) := by
  obtain ⟨s, hs, h⟩ := shaped_or_closed (.counting ⟨2, 3, .unbounded, .owned⟩ 5) rfl {}
  refine ⟨s, hs, fun us => ?_⟩
  obtain ⟨b, hb, -, hshaped, -⟩ := h us
  exact ⟨b, hb, hshaped⟩

end Shared
end Replay
