import Replay.Proofs.Carrying
import Replay.Proofs.Towers.Matching

/-!
The cleanup steps of a janitor as a list of attempts. Every call of the delegate's close or release, and
every release of a cursor, is an attempt with an outcome. The janitor's report consists of the faults of
its attempts, and each fault was logged as a warning.
-/
namespace Replay

open Store

variable {α β : Type}

/-- A cleanup step, its outcome, and the events logged during it. -/
structure Attempt where
  stage : Stage
  outcome : Outcome StreamError Unit
  said : List Event

def Event.warns (e : Event) : Bool := e.level = .warn

namespace Attempt

def fault? (id : ProviderId) (a : Attempt) : Option Fault :=
  a.outcome.complaint.map fun detail => ⟨id, a.stage, detail⟩

def warnings (id : ProviderId) (a : Attempt) : List Event :=
  a.said.filter Event.warns ++ (a.fault? id).toList.map .faultSwallowed

/-- Runs a cleanup step and logs a warning if it fails or panics. -/
def make (id : ProviderId) (stage : Stage) (ends : β → Outcome StreamError Unit) (step : Call α β) :
    Call α (Attempt × β) := do
  let before := (← get).feeds.log.size
  let x ← step
  let said := (← get).feeds.log.toList.drop before
  discard (Report.begun.record id stage (ends x))
  return (⟨stage, ends x, said⟩, x)

def provided (reason : Store α → Bool) (f : Call α (List Attempt)) : Call α (List Attempt) := do
  if reason (← get) then f else return []

end Attempt

/-- The report of a list of attempts; it is unperformed if there are none. -/
def Report.ofAttempts (id : ProviderId) (as : List Attempt) : Report :=
  ⟨!as.isEmpty, as.filterMap (Attempt.fault? id)⟩

namespace Janitor

def tryClose (w : Switches α) (j : Janitor) : Call α (List Attempt) := do
  let (a, _) ← Attempt.make j.id .closeProvider (fun outcome => outcome)
    (j.delegate.close w (some j.slot))
  onStatistics j.statistics (·.closeProvider)
  note (.managedProviderClosed j.id)
  return [a]

/-- `before` are the attempts whose faults the summary event counts as well. -/
def tryRelease (w : Switches α) (j : Janitor) (before : List Attempt) : Call α (List Attempt) := do
  let (a, _) ← Attempt.make j.id .releaseProvider (fun outcome => outcome)
    (j.delegate.release w (some j.slot))
  let outstanding := ((← get).janitor j.slot).openCursors
  onStatistics j.statistics (·.closeCursors outstanding)
  note (.resourcesReleased j.id outstanding
    (Report.ofAttempts j.id (before ++ [a])).faults.length)
  return [a]

/-- The attempts of `close` and `release`, by the number of switches left. -/
def attempts : (left : Nat) → Ending → Janitor → Call α (List Attempt)
  | 0, _, _ => pure []
  | left + 1, .close, j => do
    if ((← get).janitor j.slot).closed then return []
    onJanitor j.slot fun t => { t with closed := true }
    let before ← j.tryClose (switches left)
    return before ++ (← Attempt.provided (fun m => (m.janitor j.slot).openCursors = 0)
      (attempts left .release j))
  | left + 1, .release, j => do
    if ((← get).janitor j.slot).released then return []
    onJanitor j.slot fun t => { t with released := true }
    let before ← attempts left .close j
    return before ++ (← j.tryRelease (switches left) before)

def outAttempts (left : Nat) (j : Janitor) : Call α (List Attempt) := do
  let count := ((← get).janitor j.slot).openCursors
  onJanitor j.slot JanitorState.countDown
  Attempt.provided (fun m => count ≤ 1 && (m.janitor j.slot).closed) (j.attempts left .release)

def cursorAttempts (left : Nat) (j : Janitor) (step : Call α (Outcome StreamError Unit × Cursor)) :
    Call α (List Attempt × Cursor) := do
  if !((← get).janitor j.slot).released then
    onStatistics j.statistics (·.closeCursors 1)
  let (a, _, c) ← Attempt.make j.id .releaseCursor Prod.fst step
  return (a :: (← j.outAttempts left), c)

end Janitor

section hasError

variable {id : ProviderId} {m : Store α}

theorem Report.ofAttempts_append (id : ProviderId) (as bs : List Attempt) :
    Report.ofAttempts id (as ++ bs) = (Report.ofAttempts id as).merge (Report.ofAttempts id bs) := by
  rw [merge, ofAttempts, ofAttempts, ofAttempts, List.filterMap_append]
  cases as with
  | nil => rfl
  | cons a as => rfl

theorem Report.ofAttempts_singleton (id : ProviderId) (a : Attempt) :
    Report.ofAttempts id [a] = ⟨true, (a.fault? id).toList⟩ := by
  cases h : a.fault? id with
  | none => simp [ofAttempts, h]
  | some f => simp [ofAttempts, h]

def Store.recorded (m : Store α) (id : ProviderId) (stage : Stage) (outcome : Outcome StreamError Unit) :
    Store α :=
  ((Report.begun.record id stage outcome).run m).2

theorem Report.run_record (r : Report) (stage : Stage) (outcome : Outcome StreamError Unit) :
    (r.record id stage outcome).run m =
      (⟨r.performed, r.faults ++ ((Attempt.mk stage outcome []).fault? id).toList⟩,
        m.recorded id stage outcome) := by
  unfold Store.recorded record Attempt.fault?
  dsimp only
  cases outcome.complaint with
  | none => exact Prod.ext (congrArg (Report.mk r.performed) (List.append_nil _).symm) rfl
  | some detail => rfl

theorem Attempt.run_make (stage : Stage) (ends : β → Outcome StreamError Unit) (step : Call α β) :
    (make id stage ends step).run m =
      ((⟨stage, ends (step.run m).1, (step.run m).2.feeds.log.toList.drop m.feeds.log.size⟩,
        (step.run m).1), (step.run m).2.recorded id stage (ends (step.run m).1)) := rfl

theorem Attempt.run_provided (reason : Store α → Bool) (f : Call α (List Attempt)) :
    (provided reason f).run m = if reason m then f.run m else ([], m) := by
  rw [provided, Call.run_bind, Call.run_get]
  dsimp only
  split
  · rfl
  · rfl

namespace Janitor

variable {j : Janitor} {w : Switches α} {left : Nat}

theorem run_closeDelegate : (j.closeDelegate w).run m =
    (Report.ofAttempts j.id ((j.tryClose w).run m).1, ((j.tryClose w).run m).2) := by
  simp only [closeDelegate, tryClose, Call.run_bind, Call.run_pure, Attempt.run_make, Report.run_record]
  rfl

theorem run_releaseDelegate (before : List Attempt) :
    (j.releaseDelegate w (Report.begun.merge (Report.ofAttempts j.id before))).run m =
      (Report.ofAttempts j.id (before ++ ((j.tryRelease w before).run m).1),
        ((j.tryRelease w before).run m).2) := by
  have hone : ∀ a : Attempt, Report.ofAttempts j.id (before ++ [a]) =
      ⟨true, (Report.ofAttempts j.id before).faults ++ (a.fault? j.id).toList⟩ := by
    intro a
    rw [Report.ofAttempts_append, Report.ofAttempts_singleton, Report.merge, Bool.or_true]
  simp only [releaseDelegate, tryRelease, Call.run_bind, Call.run_get, Call.run_pure, Attempt.run_make,
    Report.run_record, hone]
  rfl

theorem run_attempts_of_closed (left : Nat) (h : (m.janitor j.slot).closed) :
    (j.attempts left .close).run m = ([], m) := by
  cases left with
  | zero => rfl
  | succ left =>
    rw [attempts, Call.run_bind, Call.run_get]
    dsimp only
    rw [if_pos h]
    rfl

theorem run_attempts_of_released (left : Nat) (h : (m.janitor j.slot).released) :
    (j.attempts left .release).run m = ([], m) := by
  cases left with
  | zero => rfl
  | succ left =>
    rw [attempts, Call.run_bind, Call.run_get]
    dsimp only
    rw [if_pos h]
    rfl

theorem run_attempts_of_open (left : Nat) (hopen : (m.janitor j.slot).closed = false) :
    (j.attempts (left + 1) .close).run m =
      (do
        let before ← j.tryClose (switches left)
        let after ← Attempt.provided (fun m => (m.janitor j.slot).openCursors = 0)
          (j.attempts left .release)
        return before ++ after : Call α (List Attempt)).run
        (m.change j.slot fun t => { t with closed := true }) := by
  rw [attempts, Call.run_bind, Call.run_get]
  dsimp only
  rw [hopen]
  rfl

theorem run_attempts_of_unreleased (left : Nat) (hopen : (m.janitor j.slot).released = false) :
    (j.attempts (left + 1) .release).run m =
      (do
        let before ← j.attempts left .close
        let after ← j.tryRelease (switches left) before
        return before ++ after : Call α (List Attempt)).run
        (m.change j.slot fun t => { t with released := true }) := by
  rw [attempts, Call.run_bind, Call.run_get]
  dsimp only
  rw [hopen]
  rfl

/-- `close` and `release` report exactly their attempts. -/
theorem run_switches (left : Nat) (j : Janitor) (m : Store α) :
    ((switches left).close j).run m = (Report.ofAttempts j.id ((j.attempts left .close).run m).1,
        ((j.attempts left .close).run m).2) ∧
      ((switches left).release j).run m = (Report.ofAttempts j.id ((j.attempts left .release).run m).1,
        ((j.attempts left .release).run m).2) := by
  induction left generalizing m with
  | zero => exact ⟨rfl, rfl⟩
  | succ left ih =>
    have hclose : ((switches (left + 1)).close j).run m = (j.close (switches left)).run m := rfl
    have hrelease : ((switches (left + 1)).release j).run m = (j.release (switches left)).run m := rfl
    rw [hclose, hrelease]
    constructor
    · cases hopen : (m.janitor j.slot).closed with
      | true =>
        rw [run_close_of_closed hopen, run_attempts_of_closed (left + 1) hopen]
        rfl
      | false =>
        rw [run_close_of_open hopen, run_attempts_of_open left hopen]
        simp only [Call.run_bind, Call.run_get, run_closeDelegate]
        rcases (j.tryClose (switches left)).run (m.change j.slot fun t => { t with closed := true })
          with ⟨as, m'⟩
        by_cases hzero : (m'.janitor j.slot).openCursors = 0
        · simp only [hzero, if_true, Call.run_bind, (ih m').2, Call.run_pure,
            Attempt.run_provided, decide_true, Report.ofAttempts_append]
        · simp only [hzero, if_false, Call.run_pure, Attempt.run_provided, decide_false,
            Bool.false_eq_true, List.append_nil]
    · cases hopen : (m.janitor j.slot).released with
      | true =>
        rw [run_release_of_released hopen, run_attempts_of_released (left + 1) hopen]
        rfl
      | false =>
        rw [run_release_of_unreleased hopen, run_attempts_of_unreleased left hopen]
        simp only [Call.run_bind, (ih _).1, run_releaseDelegate, Call.run_pure]

theorem run_outAttempts (left : Nat) (j : Janitor) (m : Store α) :
    (j.outAttempts left).run m =
      if (m.janitor j.slot).openCursors ≤ 1 &&
          ((m.change j.slot JanitorState.countDown).janitor j.slot).closed
        then (j.attempts left .release).run (m.change j.slot JanitorState.countDown)
        else ([], m.change j.slot JanitorState.countDown) := by
  simp only [outAttempts, Call.run_bind, Call.run_get, run_onJanitor, Attempt.run_provided]
  rfl

theorem run_countOut_switches (left : Nat) (j : Janitor) (before : List Attempt) (m : Store α) :
    (j.countOut (switches left) (Report.ofAttempts j.id before)).run m =
      (Report.ofAttempts j.id (before ++ ((j.outAttempts left).run m).1),
        ((j.outAttempts left).run m).2) := by
  rw [run_countOut, run_outAttempts]
  split
  · have hrelease := (run_switches left j (m.change j.slot JanitorState.countDown)).2
    refine (congrArg (fun t => ((Report.ofAttempts j.id before).merge t.1, t.2)) hrelease).trans ?_
    rw [← Report.ofAttempts_append]
  · exact Prod.ext (congrArg (Report.ofAttempts j.id) (List.append_nil before).symm) rfl

theorem run_cursorAttempts (left : Nat) (j : Janitor)
    (step : Call α (Outcome StreamError Unit × Cursor)) (m : Store α) :
    (j.cursorAttempts left step).run m =
      (do
        let (a, _, c) ← Attempt.make j.id .releaseCursor Prod.fst step
        return (a :: (← j.outAttempts left), c) : Call α (List Attempt × Cursor)).run
        (if (m.janitor j.slot).released then m else m.charge j.statistics (·.closeCursors 1)) := by
  rw [cursorAttempts, Call.run_bind, Call.run_get]
  cases (m.janitor j.slot).released with
  | true => rfl
  | false => rfl

theorem run_releaseCursor_switches (left : Nat) (j : Janitor)
    (step : Call α (Outcome StreamError Unit × Cursor)) (m : Store α) :
    (j.releaseCursor (switches left) step).run m =
      ((Report.ofAttempts j.id ((j.cursorAttempts left step).run m).1.1,
        ((j.cursorAttempts left step).run m).1.2), ((j.cursorAttempts left step).run m).2) := by
  rw [run_releaseCursor, run_cursorAttempts]
  generalize (if (m.janitor j.slot).released then m else m.charge j.statistics (·.closeCursors 1)) = m₀
  simp only [Call.run_bind, Attempt.run_make, Report.run_record, Call.run_pure]
  rcases step.run m₀ with ⟨⟨outcome, c⟩, m₁⟩
  have hcount := run_countOut_switches left j
    [⟨.releaseCursor, outcome, m₁.feeds.log.toList.drop m₀.feeds.log.size⟩]
    (m₁.recorded j.id .releaseCursor outcome)
  rw [Report.ofAttempts_singleton] at hcount
  exact congrArg (fun t => ((t.1, c), t.2)) hcount

end Janitor
end hasError

section warnings

def Feeds.Grows (s s' : Feeds α) : Prop := s.log.toList <+: s'.log.toList

theorem Feeds.unrestricted_grows : Unrestricted (Grows (α := α)) where
  refl _ := List.prefix_rfl
  trans := List.IsPrefix.trans
  note e _ := ⟨[e], Array.toList_push.symm⟩
  modify _ _ _ := List.prefix_rfl

theorem carries_grows (left : Nat) : (switches left : Switches α).Carries Feeds.Grows :=
  Feeds.unrestricted_grows.carries left

def Store.warnings (m : Store α) : List Event := m.feeds.log.toList.filter Event.warns

/-- The warnings after a call are those before it and those of its attempts. -/
def Store.Call.Warns (id : ProviderId) (as : β → List Attempt) (f : Call α β) : Prop :=
  ∀ m : Store α, (f.run m).2.warnings = m.warnings ++ (as (f.run m).1).flatMap (Attempt.warnings id)

variable {id : ProviderId} {m : Store α}

theorem warnings_note (e : Event) (m : Store α) :
    ((note e).run m).2.warnings = m.warnings ++ [e].filter Event.warns := by
  have hlog : ((note e).run m).2.feeds.log.toList = m.feeds.log.toList ++ [e] := Array.toList_push
  rw [warnings, hlog, List.filter_append]
  rfl

theorem warnings_recorded (stage : Stage) (outcome : Outcome StreamError Unit) :
    (m.recorded id stage outcome).warnings =
      m.warnings ++ ((Attempt.mk stage outcome []).fault? id).toList.map .faultSwallowed := by
  unfold Store.recorded Report.record Attempt.fault?
  dsimp only
  cases outcome.complaint with
  | none => exact (List.append_nil _).symm
  | some detail => exact warnings_note _ m

namespace Store.Call.Warns

variable {γ : Type} {as : β → List Attempt} {bs : γ → List Attempt} {f : Call α β} {g : β → Call α γ}

theorem nil : (pure [] : Call α (List Attempt)).Warns id fun as => as :=
  fun _ => (List.append_nil _).symm

theorem get {f : Store α → Call α β} (hf : ∀ m, (f m).Warns id as) :
    (MonadState.get >>= f).Warns id as := fun m => hf m m

theorem provided {f : Call α (List Attempt)} (reason : Store α → Bool) (hf : f.Warns id fun as => as) :
    (Attempt.provided reason f).Warns id fun as => as := by
  intro m
  rw [Attempt.run_provided]
  split
  · exact hf m
  · exact nil m

theorem after (hf : ∀ m, (f.run m).2.warnings = m.warnings) (hg : ∀ x, (g x).Warns id bs) :
    (f >>= g).Warns id bs := fun m => (hg _ _).trans (congrArg (· ++ _) (hf m))

theorem hand (hf : f.Warns id as) (hg : ∀ x m, ((g x).run m).2.warnings = m.warnings ∧
    bs ((g x).run m).1 = as x) : (f >>= g).Warns id bs := by
  intro m
  obtain ⟨hsame, has⟩ := hg (f.run m).1 (f.run m).2
  refine (hsame.trans (hf m)).trans ?_
  rw [← has]
  rfl

theorem append {f : Call α (List Attempt)} {g : List Attempt → Call α (List Attempt)}
    (hf : f.Warns id fun as => as) (hg : ∀ as, (g as).Warns id fun as => as) :
    (f >>= fun as => g as >>= fun bs => pure (as ++ bs)).Warns id fun as => as := by
  intro m
  refine (hg (f.run m).1 (f.run m).2).trans ?_
  rw [hf m, List.append_assoc, ← List.flatMap_append]
  rfl

end Store.Call.Warns

theorem Attempt.warns_make {step : Call α β} (hstep : step.Carries Feeds.Grows) (stage : Stage)
    (ends : β → Outcome StreamError Unit) :
    (make id stage ends step).Warns id fun x => [x.1] := by
  intro m
  obtain ⟨said, hsaid⟩ := hstep m
  have hdrop : (step.run m).2.feeds.log.toList.drop m.feeds.log.size = said := by
    rw [← hsaid, ← Array.length_toList, List.drop_left]
  rw [run_make]
  dsimp only
  rw [warnings_recorded, hdrop, Store.warnings, ← hsaid, List.filter_append, List.append_assoc,
    List.flatMap_singleton]
  rfl

namespace Janitor

variable {j : Janitor} {w : Switches α}

theorem warns_tryClose (hw : w.Carries Feeds.Grows) : (j.tryClose w).Warns j.id fun as => as := by
  refine .hand (Attempt.warns_make (hw.closeProvider _ j.delegate) _ _) fun x m => ⟨?_, rfl⟩
  exact (warnings_note _ (m.charge j.statistics (·.closeProvider))).trans (List.append_nil _)

theorem warns_tryRelease (hw : w.Carries Feeds.Grows) (before : List Attempt) :
    (j.tryRelease w before).Warns j.id fun as => as := by
  refine .hand (Attempt.warns_make (hw.releaseProvider _ j.delegate) _ _) fun x m => ⟨?_, rfl⟩
  exact (warnings_note _ (m.charge j.statistics (·.closeCursors _))).trans (List.append_nil _)

theorem warns_attempts (left : Nat) (ending : Ending) (j : Janitor) :
    (j.attempts left ending : Call α _).Warns j.id fun as => as := by
  induction left generalizing ending with
  | zero => exact .nil
  | succ left ih =>
    have hw := carries_grows (α := α) left
    cases ending with
    | close =>
      refine .get fun m => ?_
      split
      · exact .nil
      · refine .after (fun _ => rfl) fun _ => ?_
        refine .append (warns_tryClose hw) fun _ => ?_
        exact .provided _ (ih .release)
    | release =>
      refine .get fun m => ?_
      split
      · exact .nil
      · refine .after (fun _ => rfl) fun _ => ?_
        refine .append (ih .close) fun as => ?_
        exact warns_tryRelease hw as

theorem warns_outAttempts (left : Nat) (j : Janitor) :
    (j.outAttempts left : Call α _).Warns j.id fun as => as := by
  refine .get fun _ => ?_
  refine .after (fun _ => rfl) fun _ => ?_
  exact .provided _ (warns_attempts left .release j)

theorem warns_cursorAttempts (left : Nat) (j : Janitor)
    {step : Call α (Outcome StreamError Unit × Cursor)} (hstep : step.Carries Feeds.Grows) :
    (j.cursorAttempts left step).Warns j.id Prod.fst := by
  intro m
  have hsame : (if (m.janitor j.slot).released then m
      else m.charge j.statistics (·.closeCursors 1)).warnings = m.warnings := by
    split
    · rfl
    · rfl
  rw [run_cursorAttempts, ← hsame]
  generalize (if (m.janitor j.slot).released then m else m.charge j.statistics (·.closeCursors 1)) = m₀
  have hmake : ((Attempt.make j.id .releaseCursor Prod.fst step).run m₀).2.warnings = m₀.warnings ++
      [((Attempt.make j.id .releaseCursor Prod.fst step).run m₀).1.1].flatMap (Attempt.warnings j.id) :=
    Attempt.warns_make hstep .releaseCursor Prod.fst m₀
  obtain ⟨t, ht⟩ : ∃ t, t = (Attempt.make j.id .releaseCursor Prod.fst step).run m₀ := ⟨_, rfl⟩
  simp only [Call.run_bind, Call.run_pure]
  rw [← ht] at hmake ⊢
  rw [warns_outAttempts left j t.2, hmake, List.append_assoc, ← List.flatMap_append]
  rfl

end Janitor
end warnings

end Replay
