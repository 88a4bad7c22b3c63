import Mathlib.Data.Nat.Count
import Replay.Proofs.CallCounts

/-!
How teardown changes a store. Flags are set and never cleared, `open_cursors` only decreases, and the
delegate is closed and released when the flags say so. The number of flags still to be set bounds the
depth of the recursion.
-/
namespace Replay

variable {α β γ : Type}

/-- A release is called for from outside, or no cursor is open. -/
def JanitorState.Due (t : JanitorState) : Prop := 0 < t.demands ∨ t.openCursors = 0

/-- The change of a janitor during teardown. The last three fields carry the invariants of `Orderly`;
they may be void while the janitor is at work. -/
structure JanitorState.Advances (t t' : JanitorState) : Prop where
  closed : t.closed → t'.closed
  released : t.released → t'.released
  demands : t.demands ≤ t'.demands
  openCursors : t'.openCursors ≤ t.openCursors
  closings : t.closings + t'.closed.toNat = t'.closings + t.closed.toNat
  releasings : t.releasings + t'.released.toNat = t'.releasings + t.released.toNat
  due : t'.released → t.released ∨ t'.Due
  demanded : (0 < t.demands → t.released) → 0 < t'.demands → t'.released
  shut : (t.released → t.closed) → t'.released → t'.closed
  done : (t.closed → t.openCursors = 0 → t.released) → t'.closed → t'.openCursors = 0 → t'.released

namespace JanitorState

variable {t t' t'' : JanitorState}

theorem Due.mono (h : t.Due) (hd : t.demands ≤ t'.demands)
    (ho : t'.openCursors ≤ t.openCursors) : t'.Due := by
  unfold Due at *
  omega

namespace Advances

theorem refl (t : JanitorState) : t.Advances t where
  closed := id
  released := id
  demands := le_rfl
  openCursors := le_rfl
  closings := rfl
  releasings := rfl
  due := .inl
  demanded := id
  shut := id
  done := id

theorem retired (t : JanitorState) (retired : Bool) : t.Advances { t with retired } :=
  { refl t with }

theorem trans (h : t.Advances t') (h' : t'.Advances t'') : t.Advances t'' where
  closed := h'.closed ∘ h.closed
  released := h'.released ∘ h.released
  demands := h.demands.trans h'.demands
  openCursors := h'.openCursors.trans h.openCursors
  closings := by
    have := h.closings
    have := h'.closings
    omega
  releasings := by
    have := h.releasings
    have := h'.releasings
    omega
  due := by
    intro hr
    rcases h'.due hr with hr | hdue
    · exact (h.due hr).imp_right fun hdue => hdue.mono h'.demands h'.openCursors
    · exact .inr hdue
  demanded := h'.demanded ∘ h.demanded
  shut := h'.shut ∘ h.shut
  done := h'.done ∘ h.done

theorem of_close (hopen : t.closed = false)
    (h : Advances { t with closed := true, closings := t.closings + 1 } t')
    (hr : t'.openCursors = 0 → t'.released) : t.Advances t' := by
  have hclosed : t'.closed := h.closed rfl
  have hclosings : t.closings + t'.closed.toNat = t'.closings + t.closed.toNat := by
    have hclosings := h.closings
    simp only [hclosed, hopen, Bool.toNat_true, Bool.toNat_false] at hclosings ⊢
    omega
  exact { h with
    closed := fun _ => hclosed
    closings := hclosings
    shut := fun _ _ => hclosed
    done := fun _ _ => hr }

theorem of_release (hopen : t.released = false) (hdue : t.Due)
    (h : Advances { t with released := true } t') (hclosed : t'.closed)
    (h' : Advances { t' with releasings := t'.releasings + 1 } t'') : t.Advances t'' := by
  have hreleased : t''.released := h'.released (h.released rfl)
  have hdemands : t.demands ≤ t''.demands := h.demands.trans h'.demands
  have hcursors : t''.openCursors ≤ t.openCursors := h'.openCursors.trans h.openCursors
  have hclosings : t.closings + t''.closed.toNat = t''.closings + t.closed.toNat := by
    have hclosings := h.closings
    have hclosings' := h'.closings
    dsimp only at hclosings hclosings'
    omega
  have hreleasings : t.releasings + t''.released.toNat = t''.releasings + t.released.toNat := by
    have hreleasings := h.releasings
    have hreleasings' := h'.releasings
    simp only [hopen, hreleased, h.released rfl, Bool.toNat_true, Bool.toNat_false]
      at hreleasings hreleasings' ⊢
    omega
  exact {
    closed := fun ht => h'.closed (h.closed ht)
    released := fun _ => hreleased
    demands := hdemands
    openCursors := hcursors
    closings := hclosings
    releasings := hreleasings
    due := fun _ => .inr (hdue.mono hdemands hcursors)
    demanded := fun _ _ => hreleased
    shut := fun _ _ => h'.closed hclosed
    done := fun _ _ _ => hreleased }

theorem of_countDown (h : t.countDown.Advances t')
    (hr : t.openCursors ≤ 1 → t.closed → t'.released) : t.Advances t' := by
  have hdone : t'.closed → t'.openCursors = 0 → t'.released := by
    intro hc ho
    by_cases hlast : t.openCursors ≤ 1 ∧ t.closed
    · exact hr hlast.1 hlast.2
    · refine h.done (fun hclosed hzero => ?_) hc ho
      dsimp only [countDown] at hclosed hzero
      exact absurd ⟨by omega, hclosed⟩ hlast
  exact { h with
    openCursors := h.openCursors.trans (Nat.sub_le _ _)
    done := fun _ => hdone }

theorem of_demand (h : Advances { t with demands := t.demands + 1 } t') (hr : t'.released) :
    t.Advances t' := by
  have hdemands : 0 < t'.demands := Nat.lt_of_lt_of_le (Nat.succ_pos _) h.demands
  exact { h with
    demands := Nat.le_of_succ_le h.demands
    due := fun _ => .inr (.inl hdemands)
    demanded := fun _ _ => hr
    done := fun _ _ _ => hr }

end Advances
end JanitorState

namespace Feeds

def isOpen (s : Feeds α) (feed : Nat) : Bool := (s.buffer? feed).any fun b => !b.closed

/-- The feeds are the same and no closed buffer is open again. -/
structure NoneOpened (s s' : Feeds α) : Prop where
  size : s'.cells.size = s.cells.size
  isOpen : ∀ feed, s'.isOpen feed → s.isOpen feed

variable {s s' s'' : Feeds α} {feed : Nat}

theorem lt_of_isOpen (h : s.isOpen feed) : feed < s.cells.size := by
  by_contra hle
  simp [isOpen, buffer?, Array.getElem?_eq_none (Nat.le_of_not_lt hle)] at h

theorem NoneOpened.refl (s : Feeds α) : s.NoneOpened s := ⟨rfl, fun _ => id⟩

theorem NoneOpened.trans (h : s.NoneOpened s') (h' : s'.NoneOpened s'') : s.NoneOpened s'' :=
  ⟨h'.size.trans h.size, fun feed hopen => h.isOpen feed (h'.isOpen feed hopen)⟩

theorem NoneOpened.modify {f : Feed α → Feed α} (hf : ∀ c, (f c).buffer = c.buffer) :
    s.NoneOpened (s.modify feed f) := by
  refine ⟨by simp [Feeds.modify], fun other hopen => ?_⟩
  have hbuffer : (s.modify feed f).buffer? other = s.buffer? other := by
    simp only [Feeds.buffer?, Feeds.modify, Array.getElem?_modify]
    split
    · cases s.cells[other]? with
      | none => rfl
      | some c => exact hf c
    · rfl
  rwa [Feeds.isOpen, hbuffer] at hopen

theorem NoneOpened.setBuffer {b : Buffer α} (hb : b.closed) : s.NoneOpened (s.setBuffer feed (some b)) := by
  refine ⟨by simp [Feeds.setBuffer, Feeds.modify], fun other hopen => ?_⟩
  by_cases hother : feed = other
  · subst hother
    simp only [Feeds.isOpen, Feeds.buffer?, Feeds.setBuffer, Feeds.modify, Array.getElem?_modify,
      if_true] at hopen
    cases hc : s.cells[feed]? with
    | none => simp [hc] at hopen
    | some c => simp [hc, hb] at hopen
  · rwa [Feeds.isOpen, buffer?_setBuffer_of_ne hother] at hopen

end Feeds

theorem count_lt_count {p q : Nat → Prop} [DecidablePred p] [DecidablePred q] {n i : Nat}
    (h : ∀ k < n, p k → q k) (hi : i < n) (hq : q i) (hp : ¬p i) :
    Nat.count p n < Nat.count q n := by
  rw [Nat.count_eq_card_filter_range, Nat.count_eq_card_filter_range]
  apply Finset.card_lt_card
  refine ⟨fun k hk => ?_, fun hsub => hp ?_⟩
  · rw [Finset.mem_filter, Finset.mem_range] at hk ⊢
    exact ⟨hk.1, h k hk.1 hk.2⟩
  · have hmem := hsub (Finset.mem_filter.mpr ⟨Finset.mem_range.mpr hi, hq⟩)
    exact (Finset.mem_filter.mp hmem).2

namespace Store

/-- How many flags are still to be set, and buffers to be closed. -/
def pending (m : Store α) : Nat :=
  Nat.count (fun slot => (m.janitor slot).closed = false) m.janitors.size +
    Nat.count (fun slot => (m.janitor slot).released = false) m.janitors.size +
    Nat.count (fun feed => m.feeds.isOpen feed) m.feeds.cells.size

theorem pending_le_endings (m : Store α) : m.pending ≤ m.endings := by
  unfold pending endings
  have hclosed := Nat.count_le (p := fun slot => (m.janitor slot).closed = false)
    (n := m.janitors.size)
  have hreleased := Nat.count_le (p := fun slot => (m.janitor slot).released = false)
    (n := m.janitors.size)
  have hopen := Nat.count_le (p := fun feed => (m.feeds.isOpen feed : Prop))
    (n := m.feeds.cells.size)
  omega

/-- No flag is cleared and no buffer reopened. -/
structure FlagsMono (m m' : Store α) : Prop where
  size : m'.janitors.size = m.janitors.size
  closed : ∀ slot, (m.janitor slot).closed → (m'.janitor slot).closed
  released : ∀ slot, (m.janitor slot).released → (m'.janitor slot).released
  feeds : m.feeds.NoneOpened m'.feeds

structure Advances (m m' : Store α) : Prop where
  size : m'.janitors.size = m.janitors.size
  janitor : ∀ slot, (m.janitor slot).Advances (m'.janitor slot)
  feeds : m.feeds.NoneOpened m'.feeds

/-- A flag was set or a buffer closed that was not before. -/
inductive Ended (m m' : Store α) : Prop
  | closed (slot : Nat) (hopen : (m.janitor slot).closed = false) (h : (m'.janitor slot).closed)
  | released (slot : Nat) (hopen : (m.janitor slot).released = false)
      (h : (m'.janitor slot).released)
  | shut (feed : Nat) (hopen : m.feeds.isOpen feed) (h : m'.feeds.isOpen feed = false)

variable {m m' m'' : Store α} {slot feed : Nat}

theorem janitor_of_le (h : m.janitors.size ≤ slot) : m.janitor slot = .void := by
  simp [janitor, Array.getD_eq_getD_getElem?, Array.getElem?_eq_none h]

theorem lt_of_closed_eq_false (h : (m.janitor slot).closed = false) : slot < m.janitors.size := by
  by_contra hle
  rw [janitor_of_le (Nat.le_of_not_lt hle)] at h
  cases h

theorem lt_of_released_eq_false (h : (m.janitor slot).released = false) :
    slot < m.janitors.size := by
  by_contra hle
  rw [janitor_of_le (Nat.le_of_not_lt hle)] at h
  cases h

/-- With nothing pending every janitor is closed and released. -/
theorem ended_of_pending (h : m.pending ≤ 0) (slot : Nat) :
    (m.janitor slot).closed ∧ (m.janitor slot).released := by
  by_cases hlt : slot < m.janitors.size
  · obtain ⟨⟨hclosed, hreleased⟩, -⟩ : (_ = 0 ∧ _ = 0) ∧ _ = 0 := by
      simpa only [pending, Nat.le_zero, Nat.add_eq_zero_iff] using h
    rw [Nat.count_iff_forall_not] at hclosed hreleased
    exact ⟨by simpa using hclosed slot hlt, by simpa using hreleased slot hlt⟩
  · rw [janitor_of_le (Nat.le_of_not_lt hlt)]
    exact ⟨rfl, rfl⟩

theorem Advances.flagsMono (h : m.Advances m') : m.FlagsMono m' :=
  ⟨h.size, fun slot => (h.janitor slot).closed, fun slot => (h.janitor slot).released, h.feeds⟩

theorem FlagsMono.counts (h : m.FlagsMono m') :
    (∀ slot, (m'.janitor slot).closed = false → (m.janitor slot).closed = false) ∧
      ∀ slot, (m'.janitor slot).released = false → (m.janitor slot).released = false := by
  refine ⟨fun slot hslot => ?_, fun slot hslot => ?_⟩
  · rw [← Bool.not_eq_true] at hslot ⊢
    exact mt (h.closed slot) hslot
  · rw [← Bool.not_eq_true] at hslot ⊢
    exact mt (h.released slot) hslot

theorem FlagsMono.pending_le (h : m.FlagsMono m') : m'.pending ≤ m.pending := by
  obtain ⟨hclosed, hreleased⟩ := h.counts
  unfold pending
  rw [h.size, h.feeds.size]
  refine Nat.add_le_add (Nat.add_le_add ?_ ?_) ?_
  · exact Nat.count_mono_left fun slot _ => hclosed slot
  · exact Nat.count_mono_left fun slot _ => hreleased slot
  · exact Nat.count_mono_left fun feed _ => h.feeds.isOpen feed

theorem FlagsMono.pending_lt (h : m.FlagsMono m') (hended : m.Ended m') : m'.pending < m.pending := by
  obtain ⟨hclosed, hreleased⟩ := h.counts
  have hc := Nat.count_mono_left (n := m.janitors.size) fun slot _ => hclosed slot
  have hr := Nat.count_mono_left (n := m.janitors.size) fun slot _ => hreleased slot
  have hf := Nat.count_mono_left (n := m.feeds.cells.size) fun feed _ => h.feeds.isOpen feed
  unfold pending
  rw [h.size, h.feeds.size]
  cases hended with
  | closed slot hopen hended =>
    have := count_lt_count (fun slot _ => hclosed slot) (lt_of_closed_eq_false hopen) hopen
      (by simp [hended])
    omega
  | released slot hopen hended =>
    have := count_lt_count (fun slot _ => hreleased slot) (lt_of_released_eq_false hopen) hopen
      (by simp [hended])
    omega
  | shut feed hopen hended =>
    have := count_lt_count (fun feed _ => h.feeds.isOpen feed) (Feeds.lt_of_isOpen hopen) hopen
      (by simp [hended])
    omega

namespace Advances

theorem refl (m : Store α) : m.Advances m := ⟨rfl, fun _ => .refl _, .refl _⟩

theorem trans (h : m.Advances m') (h' : m'.Advances m'') : m.Advances m'' :=
  ⟨h'.size.trans h.size, fun slot => (h.janitor slot).trans (h'.janitor slot),
    h.feeds.trans h'.feeds⟩

theorem pending_le (h : m.Advances m') : m'.pending ≤ m.pending := h.flagsMono.pending_le

theorem of_janitors (hj : m'.janitors = m.janitors) (hf : m.feeds.NoneOpened m'.feeds) :
    m.Advances m' := by
  refine ⟨by rw [hj], fun slot => ?_, hf⟩
  unfold Store.janitor
  rw [hj]
  exact .refl _

end Advances

def change (m : Store α) (slot : Nat) (f : JanitorState → JanitorState) : Store α :=
  { m with janitors := m.janitors.modify slot f }

section change

variable {f g : JanitorState → JanitorState}

theorem run_onJanitor : (onJanitor slot f).run m = ((), m.change slot f) := rfl

@[simp] theorem size_change : (m.change slot f).janitors.size = m.janitors.size := by
  simp [change]

theorem janitor_change_self (h : slot < m.janitors.size) :
    (m.change slot f).janitor slot = f (m.janitor slot) := by
  simp only [change, janitor, Array.getD_eq_getD_getElem?, Array.getElem?_modify, if_true,
    Array.getElem?_eq_getElem h, Option.map_some, Option.getD_some]

theorem janitor_change_of_ne {other : Nat} (h : slot ≠ other) :
    (m.change slot f).janitor other = m.janitor other := by
  simp [change, janitor, Array.getD_eq_getD_getElem?, Array.getElem?_modify, h]

/-- No bound on the slot is needed where the update fixes `void`. -/
theorem janitor_change_of_void (hf : f .void = .void) :
    (m.change slot f).janitor slot = f (m.janitor slot) := by
  by_cases hlt : slot < m.janitors.size
  · exact janitor_change_self hlt
  · have hle := Nat.le_of_not_lt hlt
    rw [janitor_of_le hle, hf]
    exact janitor_of_le (size_change.trans_le hle)

theorem janitor_change_congr {β : Type} {g : JanitorState → β} (hf : ∀ t, g (f t) = g t) :
    g ((m.change slot f).janitor slot) = g (m.janitor slot) := by
  by_cases hlt : slot < m.janitors.size
  · rw [janitor_change_self hlt, hf]
  · have hle := Nat.le_of_not_lt hlt
    rw [janitor_of_le hle, janitor_of_le (size_change.trans_le hle)]

theorem janitor_change_of_same {m' : Store α} {other : Nat} (hsize : m'.janitors.size = m.janitors.size)
    (h : m'.janitor other = m.janitor other) :
    (m'.change slot f).janitor other = (m.change slot f).janitor other := by
  by_cases hne : slot = other
  · subst hne
    by_cases hlt : slot < m.janitors.size
    · rw [janitor_change_self hlt, janitor_change_self (hsize ▸ hlt), h]
    · have hle := Nat.le_of_not_lt hlt
      rw [janitor_of_le (size_change.trans_le hle), janitor_of_le (size_change.trans_le (hsize ▸ hle))]
  · rw [janitor_change_of_ne hne, janitor_change_of_ne hne, h]

theorem change_of_le (h : m.janitors.size ≤ slot) : m.change slot f = m := by
  have hsame : m.janitors.modify slot f = m.janitors := by
    apply Array.ext_getElem?
    intro i
    rw [Array.getElem?_modify]
    split
    · rename_i hi
      subst hi
      simp [Array.getElem?_eq_none h]
    · rfl
  simp [change, hsame]

theorem change_change : (m.change slot f).change slot g = m.change slot (g ∘ f) := by
  have hsame : (m.janitors.modify slot f).modify slot g = m.janitors.modify slot (g ∘ f) := by
    apply Array.ext_getElem?
    intro i
    simp only [Array.getElem?_modify]
    split
    · rw [Option.map_map]
    · rfl
  simp [change, hsame]

theorem change_id : m.change slot id = m := by
  have hsame : m.janitors.modify slot id = m.janitors := by
    apply Array.ext_getElem?
    intro i
    rw [Array.getElem?_modify]
    split
    · exact Option.map_id_apply
    · rfl
  simp [change, hsame]

/-- If only one janitor is updated in between, only that one has to be accounted for. -/
theorem Advances.of_changes (h : (m.change slot f).Advances m') (h' : (m'.change slot g).Advances m'')
    (hslot : slot < m.janitors.size → (f (m.janitor slot)).Advances (m'.janitor slot) →
      (g (m'.janitor slot)).Advances (m''.janitor slot) →
        (m.janitor slot).Advances (m''.janitor slot)) : m.Advances m'' := by
  have hsize : m'.janitors.size = m.janitors.size := h.size.trans size_change
  by_cases hlt : slot < m.janitors.size
  · refine ⟨(h'.size.trans size_change).trans hsize, fun other => ?_, h.feeds.trans h'.feeds⟩
    have hother := h.janitor other
    have hother' := h'.janitor other
    by_cases hne : slot = other
    · subst hne
      rw [janitor_change_self hlt] at hother
      rw [janitor_change_self (hsize ▸ hlt)] at hother'
      exact hslot hlt hother hother'
    · rw [janitor_change_of_ne hne] at hother hother'
      exact hother.trans hother'
  · have hle := Nat.le_of_not_lt hlt
    rw [change_of_le hle] at h
    rw [change_of_le (hsize ▸ hle)] at h'
    exact h.trans h'

theorem Advances.of_change (h : (m.change slot f).Advances m')
    (hslot : slot < m.janitors.size → (f (m.janitor slot)).Advances (m'.janitor slot) →
      (m.janitor slot).Advances (m'.janitor slot)) : m.Advances m' := by
  have h' : (m'.change slot id).Advances m' := by
    rw [change_id]
    exact .refl m'
  exact .of_changes h h' fun hlt hself _ => hslot hlt hself

theorem FlagsMono.of_change (hc : ∀ t, t.closed → (f t).closed)
    (hr : ∀ t, t.released → (f t).released) : m.FlagsMono (m.change slot f) := by
  by_cases hlt : slot < m.janitors.size
  · refine ⟨size_change, fun other ho => ?_, fun other ho => ?_, .refl _⟩
    · by_cases hne : slot = other
      · subst hne
        rw [janitor_change_self hlt]
        exact hc _ ho
      · rwa [janitor_change_of_ne hne]
    · by_cases hne : slot = other
      · subst hne
        rw [janitor_change_self hlt]
        exact hr _ ho
      · rwa [janitor_change_of_ne hne]
  · rw [change_of_le (Nat.le_of_not_lt hlt)]
    exact (Advances.refl m).flagsMono

end change

end Store
end Replay
