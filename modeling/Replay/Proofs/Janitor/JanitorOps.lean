import Replay.Proofs.Janitor.Attempts
import Replay.Proofs.Janitor.StoreOps

/-!
Runs of operations on one janitor. Each report has the faults of the janitor's own attempts, in their
order and each of them logged, and the delegate is closed before it is released.
-/
namespace Replay

open Store

variable {α : Type} {m : Store α} {j : Janitor}

namespace Janitor

theorem stages_tryClose (w : Switches α) (m : Store α) :
    ((j.tryClose w).run m).1.map Attempt.stage = [.closeProvider] := rfl

theorem stages_tryRelease (w : Switches α) (before : List Attempt) (m : Store α) :
    ((j.tryRelease w before).run m).1.map Attempt.stage = [.releaseProvider] := rfl

theorem keeps_tryClose {left : Nat} (hopen : (m.janitor j.slot).closed = false)
    (hm : m.pending ≤ left + 1) {as : List Attempt} {m' : Store α}
    (hrun : (j.tryClose (switches left)).run (m.change j.slot fun t => { t with closed := true }) =
      (as, m')) :
    m'.pending ≤ left ∧ (m'.janitor j.slot).closed ∧
      ((m.janitor j.slot).released → (m'.janitor j.slot).released) := by
  have hlt := lt_of_closed_eq_false hopen
  have hflags : m.FlagsMono
      (m.change j.slot fun t => { t with closed := true, closings := t.closings + 1 }) :=
    .of_change (fun _ _ => rfl) fun _ h => h
  have hpending : (m.change j.slot fun t => { t with closed := true, closings := t.closings + 1 }).pending ≤
      left := Nat.le_of_lt_succ
    ((hflags.pending_lt (.closed j.slot hopen (by rw [janitor_change_self hlt]))).trans_le hm)
  have hdelegate := (suffice_switches left).closeDelegate j
    (m := m.change j.slot fun t => { t with closed := true }) (by rwa [change_change])
  rw [change_change, run_closeDelegate, hrun] at hdelegate
  refine ⟨hdelegate.pending_le.trans hpending, (hdelegate.janitor j.slot).closed ?_,
    fun hreleased => (hdelegate.janitor j.slot).released (hflags.released j.slot hreleased)⟩
  rw [janitor_change_self hlt]
  rfl

/-- Close precedes release, each at most once, and neither is repeated. -/
structure InOrder (left : Nat) (j : Janitor) (m : Store α) : Prop where
  close : (((j.attempts left .close).run m).1.map Attempt.stage).Sublist
    [.closeProvider, .releaseProvider]
  close_of_released : (m.janitor j.slot).released →
    (((j.attempts left .close).run m).1.map Attempt.stage).Sublist [.closeProvider]
  release : (((j.attempts left .release).run m).1.map Attempt.stage).Sublist
    [.closeProvider, .releaseProvider]
  release_of_closed : (m.janitor j.slot).closed →
    (((j.attempts left .release).run m).1.map Attempt.stage).Sublist [.releaseProvider]

theorem inOrder_close {left : Nat} (ih : ∀ {m : Store α}, m.pending ≤ left → j.InOrder left m)
    (hm : m.pending ≤ left + 1) :
    (((j.attempts (left + 1) .close).run m).1.map Attempt.stage).Sublist
        [.closeProvider, .releaseProvider] ∧
      ((m.janitor j.slot).released →
        (((j.attempts (left + 1) .close).run m).1.map Attempt.stage).Sublist [.closeProvider]) := by
  cases hopen : (m.janitor j.slot).closed with
  | true =>
    rw [run_attempts_of_closed (left + 1) hopen]
    exact ⟨List.nil_sublist _, fun _ => List.nil_sublist _⟩
  | false =>
    have hfirst :=
      stages_tryClose (j := j) (switches left) (m.change j.slot fun t => { t with closed := true })
    rw [run_attempts_of_open left hopen]
    simp only [Call.run_bind, Call.run_pure, List.map_append]
    rcases hrun : (j.tryClose (switches left)).run (m.change j.slot fun t => { t with closed := true })
      with ⟨as, m'⟩
    obtain ⟨hpending, hclosed, hreleased⟩ := keeps_tryClose hopen hm hrun
    rw [hrun] at hfirst
    rw [hfirst, Attempt.run_provided]
    constructor
    · split
      · exact ((ih hpending).release_of_closed hclosed).cons_cons _
      · exact List.sublist_append_left _ _
    · intro h
      split
      · rw [run_attempts_of_released left (hreleased h)]
        exact List.Sublist.refl _
      · exact List.Sublist.refl _

theorem inOrder_release {left : Nat} (ih : ∀ {m : Store α}, m.pending ≤ left → j.InOrder left m)
    (hm : m.pending ≤ left + 1) :
    (((j.attempts (left + 1) .release).run m).1.map Attempt.stage).Sublist
        [.closeProvider, .releaseProvider] ∧
      ((m.janitor j.slot).closed →
        (((j.attempts (left + 1) .release).run m).1.map Attempt.stage).Sublist [.releaseProvider]) := by
  cases hopen : (m.janitor j.slot).released with
  | true =>
    rw [run_attempts_of_released (left + 1) hopen]
    exact ⟨List.nil_sublist _, fun _ => List.nil_sublist _⟩
  | false =>
    have hpending : (m.change j.slot fun t => { t with released := true }).pending ≤ left :=
      Nat.le_of_lt_succ ((pending_releasing hopen).trans_le hm)
    have hfirst := (ih hpending).close_of_released
      (by rw [janitor_change_self (lt_of_released_eq_false hopen)])
    rw [run_attempts_of_unreleased left hopen]
    simp only [Call.run_bind, Call.run_pure, List.map_append, stages_tryRelease]
    refine ⟨hfirst.append_right [.releaseProvider], fun hclosed => ?_⟩
    have hstill : ((m.change j.slot fun t => { t with released := true }).janitor j.slot).closed := by
      rwa [janitor_change_self (lt_of_released_eq_false hopen)]
    rw [run_attempts_of_closed left hstill]
    exact List.Sublist.refl _

theorem inOrder (left : Nat) {m : Store α} (hm : m.pending ≤ left) : j.InOrder left m := by
  induction left generalizing m with
  | zero =>
    exact ⟨List.nil_sublist _, fun _ => List.nil_sublist _, List.nil_sublist _, fun _ => List.nil_sublist _⟩
  | succ left ih =>
    have hclose := inOrder_close ih hm
    have hrelease := inOrder_release ih hm
    exact ⟨hclose.1, hclose.2, hrelease.1, hrelease.2⟩

theorem stages_outAttempts (left : Nat) (hm : m.pending ≤ left) :
    (((j.outAttempts left).run m).1.map Attempt.stage).Sublist [.closeProvider, .releaseProvider] := by
  have hcounted : m.FlagsMono (m.change j.slot JanitorState.countDown) :=
    .of_change (fun _ h => h) fun _ h => h
  rw [run_outAttempts]
  split
  · exact (inOrder left (hcounted.pending_le.trans hm)).release
  · exact List.nil_sublist _

theorem stages_cursorAttempts (left : Nat) {step : Call α (Outcome StreamError Unit × Cursor)}
    (hstep : step.Ends left) (hm : m.pending ≤ left) :
    (((j.cursorAttempts left step).run m).1.1.map Attempt.stage).Sublist
      [.releaseCursor, .closeProvider, .releaseProvider] := by
  have hbegun : (if (m.janitor j.slot).released then m
      else m.charge j.statistics (·.closeCursors 1)).pending ≤ left := by
    split
    · exact hm
    · exact ((ends_onStatistics j.statistics (·.closeCursors 1)) m hm).pending_le.trans hm
  rw [run_cursorAttempts]
  generalize (if (m.janitor j.slot).released then m else m.charge j.statistics (·.closeCursors 1)) = m₀
    at hbegun ⊢
  have hstepped := (hstep m₀ hbegun).pending_le.trans hbegun
  have hrecorded := (ends_record .begun j.id .releaseCursor (step.run m₀).1.1 _ hstepped).pending_le
  simp only [Call.run_bind, Call.run_pure, Attempt.run_make, List.map_cons]
  exact (stages_outAttempts left (hrecorded.trans hstepped)).cons_cons _

end Janitor

inductive JanitorOp where
  | close
  | release
  | releaseCursor (c : Cursor)

namespace JanitorOp

def call (w : Switches α) (j : Janitor) : JanitorOp → Call α Report
  | close => w.close j
  | release => w.demand j
  | releaseCursor c => do return (← j.releaseCursor w (c.release w)).1

def attempts (left : Nat) (j : Janitor) : JanitorOp → Call α (List Attempt)
  | close => j.attempts left .close
  | release => do
    onJanitor j.slot fun t => { t with demands := t.demands + 1 }
    j.attempts left .release
  | releaseCursor c => do return (← j.cursorAttempts left (c.release (switches left))).1

theorem run_call (left : Nat) (j : Janitor) (op : JanitorOp) (m : Store α) :
    (op.call (switches left) j).run m =
      (Report.ofAttempts j.id ((op.attempts left j).run m).1, ((op.attempts left j).run m).2) := by
  cases op with
  | close => exact (Janitor.run_switches left j m).1
  | release => exact (Janitor.run_switches left j _).2
  | releaseCursor c =>
    have hrun := Janitor.run_releaseCursor_switches left j (c.release (switches left)) m
    exact congrArg (fun t => (t.1.1, t.2)) hrun

theorem warns_attempts (left : Nat) (j : Janitor) (op : JanitorOp) :
    (op.attempts left j : Call α _).Warns j.id fun as => as := by
  cases op with
  | close => exact Janitor.warns_attempts left .close j
  | release => exact .after (fun _ => rfl) fun _ => Janitor.warns_attempts left .release j
  | releaseCursor c => exact Janitor.warns_cursorAttempts left j ((carries_grows left).releaseLayers c)

theorem stages_attempts (left : Nat) (op : JanitorOp) (hm : m.pending ≤ left) :
    (((op.attempts left j).run m).1.map Attempt.stage).Sublist
      [.releaseCursor, .closeProvider, .releaseProvider] := by
  cases op with
  | close => exact (Janitor.inOrder left hm).close.cons _
  | release =>
    have hdemanded : m.FlagsMono (m.change j.slot fun t => { t with demands := t.demands + 1 }) :=
      .of_change (fun _ => id) fun _ => id
    exact (Janitor.inOrder left (hdemanded.pending_le.trans hm)).release.cons _
  | releaseCursor c =>
    exact Janitor.stages_cursorAttempts left ((suffice_switches left).releaseLayers c) hm

end JanitorOp

/-- An operation that was run: its report and attempts, and the stores before and after. -/
structure OpRecord (α : Type) where
  before : Store α
  report : Report
  attempts : List Attempt
  after : Store α

/-- The report lists the faults of the attempts, and each was logged as a warning. -/
structure OpRecord.Reported (d : OpRecord α) (id : ProviderId) : Prop where
  report : d.report = .ofAttempts id d.attempts
  stages : (d.attempts.map Attempt.stage).Sublist [.releaseCursor, .closeProvider, .releaseProvider]
  warnings : d.after.warnings = d.before.warnings ++ d.attempts.flatMap (Attempt.warnings id)

namespace Janitor

def perform (j : Janitor) (m : Store α) (op : JanitorOp) : OpRecord α where
  before := m
  report := ((withSwitches fun w => op.call w j).run m).1
  attempts := ((op.attempts m.endings j).run m).1
  after := ((withSwitches fun w => op.call w j).run m).2

def course (j : Janitor) (m : Store α) : List JanitorOp → List (OpRecord α)
  | [] => []
  | op :: ops => j.perform m op :: j.course (j.perform m op).after ops

theorem run_perform (j : Janitor) (m : Store α) (op : JanitorOp) :
    ((withSwitches fun w => op.call w j).run m) = (Report.ofAttempts j.id (j.perform m op).attempts,
      ((op.attempts m.endings j).run m).2) := by
  rw [Call.run_withSwitches, JanitorOp.run_call]
  rfl

theorem after_perform (j : Janitor) (m : Store α) (op : JanitorOp) :
    (j.perform m op).after = ((op.attempts m.endings j).run m).2 :=
  congrArg Prod.snd (run_perform j m op)

theorem reported_perform (j : Janitor) (m : Store α) (op : JanitorOp) : (j.perform m op).Reported j.id where
  report := congrArg Prod.fst (run_perform j m op)
  stages := op.stages_attempts m.endings m.pending_le_endings
  warnings := by
    rw [after_perform]
    exact op.warns_attempts m.endings j m

theorem reported_course (j : Janitor) (m : Store α) (ops : List JanitorOp) :
    ∀ d ∈ j.course m ops, d.Reported j.id := by
  induction ops generalizing m with
  | nil => exact fun _ h => absurd h (List.not_mem_nil)
  | cons op ops ih =>
    intro d hd
    rcases List.mem_cons.mp hd with rfl | hd
    · exact j.reported_perform m op
    · exact ih _ d hd

end Janitor
end Replay
