import Replay.Proofs.Janitor.StoreOps
import Replay.Proofs.Towers.Matching

/-!
The flags and the open-cursor count of a janitor. Each operation on its provider changes them in a way
that does not depend on the delegate.
-/
namespace Replay

open Store

structure Standing where
  closed : Bool
  released : Bool
  openCursors : Nat
  deriving DecidableEq

def JanitorState.standing (t : JanitorState) : Standing := ⟨t.closed, t.released, t.openCursors⟩

namespace Standing

/-- `open_cursor`. -/
def enter (s : Standing) : Standing := { s with openCursors := s.openCursors + 1 }

/-- A cursor is released; the last one releases a closed provider. -/
def leave (s : Standing) : Standing :=
  { s with
    released := s.released || (s.closed && decide (s.openCursors ≤ 1))
    openCursors := s.openCursors - 1 }

/-- `close`, which releases if no cursor is open. -/
def close (s : Standing) : Standing :=
  if s.closed then s
  else { s with closed := true, released := s.released || decide (s.openCursors = 0) }

def release (s : Standing) : Standing := if s.released then s else ⟨true, true, s.openCursors⟩

/-- What is released is closed. -/
def Sound (s : Standing) : Prop := s.released → s.closed

variable {s : Standing}

theorem leave_of_last (hc : s.closed) (ho : s.openCursors ≤ 1) : s.leave = ⟨true, true, 0⟩ := by
  simp [leave, hc, ho, Nat.sub_eq_zero_of_le]

theorem leave_of_more (h : ¬ (s.openCursors ≤ 1 ∧ s.closed)) :
    s.leave = { s with openCursors := s.openCursors - 1 } := by
  have hstays : (s.closed && decide (s.openCursors ≤ 1)) = false := by
    simpa [and_comm] using h
  rw [leave, hstays, Bool.or_false]

theorem close_of_closed (h : s.closed) : s.close = s := if_pos h

theorem close_of_open (h : s.closed = false) :
    s.close = { s with closed := true, released := s.released || decide (s.openCursors = 0) } := by
  rw [close, h]
  rfl

theorem Sound.enter (h : s.Sound) : s.enter.Sound := h

theorem Sound.leave (h : s.Sound) : s.leave.Sound := by
  intro hr
  rcases Bool.or_eq_true_iff.mp hr with hr | hr
  · exact h hr
  · exact (Bool.and_eq_true_iff.mp hr).1

theorem Sound.close (h : s.Sound) : s.close.Sound := by
  unfold Standing.close
  split
  · exact h
  · exact fun _ => rfl

theorem Sound.release (h : s.Sound) : s.release.Sound := by
  unfold Standing.release
  split
  · exact h
  · exact fun _ => rfl

end Standing

variable {α β : Type} {r : Roster} {n left : Nat} {m m' : Store α} {j : Janitor}

theorem JanitorState.standing_of_released {t : JanitorState} {count : Nat} (hc : t.closed)
    (hr : t.released) (ho : t.openCursors = count) : t.standing = ⟨true, true, count⟩ := by
  rw [standing, hc, hr, ho]

theorem standing_countOut (hr : r.Sorted) (hj : j.Under r n) (hm : r.Covers m) (hleft : m.pending ≤ left)
    (report : Report) :
    (((j.countOut (switches left) report).run m).2.janitor j.slot).standing =
      (m.janitor j.slot).standing.leave := by
  obtain ⟨m₁, hm₁⟩ : ∃ m₁, m₁ = m.change j.slot JanitorState.countDown := ⟨_, rfl⟩
  have hself : m₁.janitor j.slot = (m.janitor j.slot).countDown := hm₁ ▸ janitor_change_of_void rfl
  have hflags : m.FlagsMono m₁ := hm₁ ▸ .of_change (fun _ => id) fun _ => id
  rw [Janitor.run_countOut, ← hm₁, hself, JanitorState.countDown]
  dsimp only
  by_cases hlast : (m.janitor j.slot).openCursors ≤ 1 ∧ (m.janitor j.slot).closed
  · obtain ⟨hle, hclosed⟩ := hlast
    have hzero : (m₁.janitor j.slot).openCursors = 0 := by
      rw [hself]
      exact Nat.sub_eq_zero_of_le hle
    obtain ⟨hadvances, hreleased⟩ := (suffice_switches left).release j m₁ (hflags.pending_le.trans hleft)
      (.inl (.inr hzero))
    have hopen := ((countsExact_switches hr left).release hj m₁ (hm₁ ▸ hm.change _ _)).openCursors
    have hdone := JanitorState.standing_of_released
      ((hadvances.janitor j.slot).closed (hflags.closed j.slot hclosed)) hreleased (hopen.trans hzero)
    rw [if_pos (by simp [hle, hclosed]),
      Standing.leave_of_last (s := (m.janitor j.slot).standing) hclosed hle]
    exact hdone
  · rw [if_neg (by simpa using hlast), Call.run_pure, hself,
      Standing.leave_of_more (s := (m.janitor j.slot).standing) hlast]
    rfl

theorem standing_releaseCursor (hr : r.Sorted) (hj : j.Under r n) (hm : r.Covers m)
    (hleft : m.pending ≤ left) {step : Call α (Outcome StreamError Unit × Cursor)}
    (hends : step.Ends left) (hstep : ∀ m : Store α, r.Covers m → Frame j.slot m (step.run m).2) :
    (((j.releaseCursor (switches left) step).run m).2.janitor j.slot).standing =
      (m.janitor j.slot).standing.leave := by
  rw [Janitor.run_releaseCursor]
  obtain ⟨m₀, hm₀⟩ : ∃ m₀, m₀ = if (m.janitor j.slot).released then m
    else m.charge j.statistics (·.closeCursors 1) := ⟨_, rfl⟩
  have hstruck : Frame j.slot m m₀ ∧ m₀.pending = m.pending := by
    rw [hm₀]
    split
    · exact ⟨.refl _ _, rfl⟩
    · exact ⟨frame_charge, rfl⟩
  rw [← hm₀]
  have hframe := hstruck.1.trans (hstep m₀ (hstruck.1.covers hm))
  have hpending := (hends m₀ (hstruck.2.trans_le hleft)).pending_le
  rcases hx : step.run m₀ with ⟨⟨outcome, c⟩, m₁⟩
  rw [hx] at hframe hpending
  have hrecorded := neutral_record (n := j.slot) Report.begun j.id .releaseCursor outcome m₁
    (hframe.covers hm) 0
  have hpending' := (ends_record (n := left) Report.begun j.id .releaseCursor outcome m₁
    (hpending.trans (hstruck.2.trans_le hleft))).pending_le
  rcases hy : (Report.begun.record j.id .releaseCursor outcome).run m₁ with ⟨report, m₂⟩
  rw [hy] at hrecorded hpending'
  have hall := hframe.trans hrecorded.toFrame
  simp only [Call.run_bind, hx, hy, Call.run_pure]
  rw [standing_countOut hr hj (hall.covers hm)
    ((hpending'.trans hpending).trans (hstruck.2.trans_le hleft)), hall.above j.slot le_rfl]

def JanitorState.shut (t : JanitorState) : JanitorState :=
  { t with closed := true, closings := t.closings + 1 }

def JanitorState.freed (t : JanitorState) : JanitorState :=
  { t with released := true, releasings := t.releasings + 1 }

namespace Store

theorem change_shut (m : Store α) (slot : Nat) :
    m.change slot JanitorState.shut =
      (m.change slot fun t => { t with closed := true }).change slot
        fun t => { t with closings := t.closings + 1 } := by
  rw [change_change]
  rfl

theorem change_freed (m : Store α) (slot : Nat) :
    m.change slot JanitorState.freed =
      (m.change slot fun t => { t with released := true }).change slot
        fun t => { t with releasings := t.releasings + 1 } := by
  rw [change_change]
  rfl

theorem pending_shut (h : (m.janitor j.slot).closed = false) :
    (m.change j.slot JanitorState.shut).pending < m.pending := by
  have hflags : (m.change j.slot fun t => { t with closed := true }).FlagsMono
      (m.change j.slot JanitorState.shut) := by
    rw [change_shut]
    exact .of_change (fun _ => id) fun _ => id
  exact hflags.pending_le.trans_lt (pending_closing h)

theorem pending_freed (h : (m.janitor j.slot).released = false) :
    (m.change j.slot JanitorState.freed).pending < m.pending := by
  have hflags : (m.change j.slot fun t => { t with released := true }).FlagsMono
      (m.change j.slot JanitorState.freed) := by
    rw [change_freed]
    exact .of_change (fun _ => id) fun _ => id
  exact hflags.pending_le.trans_lt (pending_releasing h)

/-- `close` of an open janitor: it closes its delegate, and releases it if no cursor is open. -/
theorem close_cases (j : Janitor) (left : Nat) (hopen : (m.janitor j.slot).closed = false) :
    ∃ m₁ : Store α,
      ((j.delegate.close (switches left) none).run (m.change j.slot JanitorState.shut)).2.Notes m₁ ∧
      (((switches (left + 1)).close j).run m).2 =
        if (m₁.janitor j.slot).openCursors = 0 then (((switches left).release j).run m₁).2 else m₁ := by
  have hnotes : ((j.delegate.close (switches left) none).run (m.change j.slot JanitorState.shut)).2.Notes
      ((j.closeDelegate (switches left)).run (m.change j.slot fun t => { t with closed := true })).2 := by
    rw [change_shut, Janitor.closeDelegate_eq]
    exact (notes_record _ _ _ _ _).trans ((notes_charge _ _ _).trans (notes_note _ _))
  have hrun : ((switches (left + 1)).close j).run m = (j.close (switches left)).run m := rfl
  refine ⟨_, hnotes, ?_⟩
  rw [hrun, Janitor.run_close_of_open hopen]
  rcases hx : (j.closeDelegate (switches left)).run (m.change j.slot fun t => { t with closed := true })
    with ⟨report, m₁⟩
  simp only [Call.run_bind, hx, Call.run_get]
  by_cases hzero : (m₁.janitor j.slot).openCursors = 0
  · simp only [hzero, if_true]
    rfl
  · simp only [hzero, if_false]
    rfl

theorem notes_releaseDelegate (w : Switches α) (j : Janitor) (report : Report) (m : Store α) :
    ((j.delegate.release w none).run
      (m.change j.slot fun t => { t with releasings := t.releasings + 1 })).2.Notes
      ((j.releaseDelegate w report).run m).2 := by
  rw [Janitor.releaseDelegate_eq]
  exact (notes_record _ _ _ _ _).trans ((notes_charge _ _ _).trans (notes_note _ _))

theorem run_release_of_open (j : Janitor) (left : Nat) (hopen : (m.janitor j.slot).released = false) :
    (((switches (left + 1)).release j).run m).2 =
      ((j.releaseDelegate (switches left) (Report.begun.merge (((switches left).close j).run
        (m.change j.slot fun t => { t with released := true })).1)).run
        (((switches left).close j).run (m.change j.slot fun t => { t with released := true })).2).2 := by
  have hrun : ((switches (left + 1)).release j).run m = (j.release (switches left)).run m := rfl
  rw [hrun, Janitor.run_release_of_unreleased hopen, Call.run_bind]

theorem release_notes (j : Janitor) (left : Nat) (hclosed : (m.janitor j.slot).closed)
    (hopen : (m.janitor j.slot).released = false) :
    ((j.delegate.release (switches left) none).run (m.change j.slot JanitorState.freed)).2.Notes
      (((switches (left + 1)).release j).run m).2 := by
  have hsame : ((m.change j.slot fun t => { t with released := true }).janitor j.slot).closed =
      (m.janitor j.slot).closed := janitor_change_congr fun _ => rfl
  rw [run_release_of_open j left hopen, run_close_switches left (hsame.trans hclosed), change_freed]
  exact notes_releaseDelegate _ _ _ _

/-- The store `m₁` after the delegate of a janitor in `m` was closed or released. -/
structure Tended (r : Roster) (slot left : Nat) (m m₁ : Store α) : Prop where
  size : m₁.janitors.size = m.janitors.size
  above : ∀ other, slot ≤ other → m₁.janitor other = m.janitor other
  covers : r.Covers m₁
  pending : m₁.pending ≤ left

variable {slot : Nat} {m₁ : Store α}

theorem tended {f : Call α β} (hf : f.Neutral r slot) (hends : f.Ends left) (hm : r.Covers m)
    (hleft : m.pending ≤ left) (hnotes : (f.run m).2.Notes m₁) : Tended r slot left m m₁ where
  size := (congrArg Array.size hnotes.janitors).trans (hf m hm 0).janitors
  above other hother := (hnotes.janitor other).trans ((hf m hm 0).above other hother)
  covers := hnotes.covers ((hf m hm 0).covers hm)
  pending := hnotes.pending.trans_le ((hends m hleft).pending_le.trans hleft)

theorem tended_close (hr : r.Sorted) (hj : j.Under r n) (hm : r.Covers m) (hleft : m.pending ≤ left + 1)
    (hopen : (m.janitor j.slot).closed = false)
    (hnotes : ((j.delegate.close (switches left) none).run (m.change j.slot JanitorState.shut)).2.Notes m₁) :
    Tended r j.slot left (m.change j.slot JanitorState.shut) m₁ :=
  tended ((countsExact_switches hr left).closeProvider hj.delegate) ((suffice_switches left).closeProvider _)
    (hm.change _ _) (Nat.le_of_lt_succ ((pending_shut hopen).trans_le hleft)) hnotes

theorem tended_release (hr : r.Sorted) (hj : j.Under r n) (hm : r.Covers m) (hleft : m.pending ≤ left + 1)
    (hopen : (m.janitor j.slot).released = false)
    (hnotes :
      ((j.delegate.release (switches left) none).run (m.change j.slot JanitorState.freed)).2.Notes m₁) :
    Tended r j.slot left (m.change j.slot JanitorState.freed) m₁ :=
  tended ((countsExact_switches hr left).releaseProvider hj.delegate)
    ((suffice_switches left).releaseProvider _)
    (hm.change _ _) (Nat.le_of_lt_succ ((pending_freed hopen).trans_le hleft)) hnotes

end Store

theorem standing_close (hr : r.Sorted) (hj : j.Under r n) (hm : r.Covers m) (hleft : m.pending ≤ left) :
    ((((switches left).close j).run m).2.janitor j.slot).standing =
      (m.janitor j.slot).standing.close := by
  cases hopen : (m.janitor j.slot).closed with
  | true =>
    rw [run_close_switches left hopen, Standing.close_of_closed (s := (m.janitor j.slot).standing) hopen]
  | false =>
    rw [Standing.close_of_open (s := (m.janitor j.slot).standing) hopen]
    obtain ⟨left, rfl⟩ : ∃ k, left = k + 1 := ⟨left - 1, by have := pending_shut hopen; omega⟩
    obtain ⟨m₁, hnotes, hrun⟩ := close_cases j left hopen
    have htended := tended_close hr hj hm hleft hopen hnotes
    have hself : m₁.janitor j.slot = (m.janitor j.slot).shut :=
      (htended.above j.slot le_rfl).trans (janitor_change_self (lt_of_closed_eq_false hopen))
    have hcount : (m₁.janitor j.slot).openCursors = (m.janitor j.slot).openCursors := by
      rw [hself]
      rfl
    rw [hrun]
    by_cases hzero : (m₁.janitor j.slot).openCursors = 0
    · obtain ⟨hadvances, hreleased⟩ := (suffice_switches left).release j m₁ htended.pending
        (.inl (.inr hzero))
      have hsame := ((countsExact_switches hr left).release hj m₁ htended.covers).openCursors
      have hclosed := (hadvances.janitor j.slot).closed (by rw [hself]; rfl)
      rw [if_pos hzero, JanitorState.standing_of_released hclosed hreleased (hsame.trans hcount)]
      simp [JanitorState.standing, ← hcount, hzero]
    · rw [if_neg hzero, hself]
      simp [JanitorState.standing, JanitorState.shut, ← hcount, hzero]

theorem standing_demand (hr : r.Sorted) (hj : j.Under r n) (hm : r.Covers m) (hleft : m.pending ≤ left)
    (hsound : (m.janitor j.slot).standing.Sound) :
    ((((switches left).demand j).run m).2.janitor j.slot).standing =
      (m.janitor j.slot).standing.release := by
  cases hopen : (m.janitor j.slot).released with
  | true =>
    have hsame : ((m.change j.slot fun t => { t with demands := t.demands + 1 }).janitor j.slot).standing =
        (m.janitor j.slot).standing := janitor_change_congr fun _ => rfl
    rw [run_demand_switches left hopen, hsame]
    exact (if_pos hopen).symm
  | false =>
    obtain ⟨hadvances, hreleased⟩ := (suffice_switches left).demanded j hleft
    have hsame := ((countsExact_switches hr left).demand hj m hm).openCursors
    have hclosed := (hadvances.janitor j.slot).shut hsound hreleased
    rw [JanitorState.standing_of_released hclosed hreleased hsame]
    exact (if_neg (by simp [JanitorState.standing, hopen])).symm

end Replay
