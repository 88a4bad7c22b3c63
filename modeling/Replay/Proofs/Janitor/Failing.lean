import Replay.Proofs.Janitor.JanitorOps
import Replay.Proofs.Janitor.LogIndependence

/-!
Failures of a delegate or a cursor do not change what a janitor does. Two janitors whose delegates have
the same effects, whatever their outcomes, keep the same counters and flags and make the same attempts;
only the faults in their reports differ.
-/
namespace Replay

open Store

variable {α β γ : Type}

def Store.noted (m : Store α) (e : Event) : Store α := ((note e).run m).2

/-- A relation on stores that a janitor cannot tell apart: it depends on flags and counters, and not on
logged faults. -/
structure Store.JanitorEquiv (R : Store α → Store α → Prop) (j : Janitor) : Prop where
  endings : ∀ {m m'}, R m m' → m.endings = m'.endings
  janitor : ∀ {m m'}, R m m' → m.janitor j.slot = m'.janitor j.slot
  statistics : ∀ {m m'}, R m m' → m.statisticsAt j.statistics = m'.statisticsAt j.statistics
  change : ∀ {m m'} f, R m m' → R (m.change j.slot f) (m'.change j.slot f)
  charge : ∀ {m m'} f, R m m' → R (m.charge j.statistics f) (m'.charge j.statistics f)
  noted : ∀ {m m'} e, R m m' → R (m.noted e) (m'.noted e)
  released : ∀ {m m'} outstanding faults faults', R m m' →
    R (m.noted (.resourcesReleased j.id outstanding faults))
      (m'.noted (.resourcesReleased j.id outstanding faults'))
  fault_left : ∀ {m m'} fault, R m m' → R (m.noted (.faultSwallowed fault)) m'
  fault_right : ∀ {m m'} fault, R m m' → R m (m'.noted (.faultSwallowed fault))

/-- Related stores are taken to related stores, whatever the results. -/
def Store.Call.SameEffect (R : Store α → Store α → Prop) (f g : Call α β) : Prop :=
  ∀ m m', R m m' → R (f.run m).2 (g.run m').2

/-- The attempts agree in their stages, not in their outcomes. -/
def Store.Call.SameAttempts (R : Store α → Store α → Prop) (f g : Call α (List Attempt)) : Prop :=
  ∀ m m', R m m' → (f.run m).1.map Attempt.stage = (g.run m').1.map Attempt.stage ∧
    R (f.run m).2 (g.run m').2

structure Provider.SameEffect (R : Store α → Store α → Prop) (p p' : Provider) : Prop where
  id : p.id = p'.id
  close : ∀ left, (p.close (switches left) none).SameEffect R (p'.close (switches left) none)
  release : ∀ left, (p.release (switches left) none).SameEffect R (p'.release (switches left) none)

inductive JanitorOp.SameEffect (R : Store α → Store α → Prop) : JanitorOp → JanitorOp → Prop
  | close : SameEffect R .close .close
  | release : SameEffect R .release .release
  | releaseCursor {c c' : Cursor}
    (h : ∀ left, (c.release (switches left)).SameEffect R (c'.release (switches left))) :
    SameEffect R (.releaseCursor c) (.releaseCursor c')

/-- The same flags are reported, the same stages attempted, and the janitor is in the same state. -/
structure OpRecord.Alike (j : Janitor) (d d' : OpRecord α) : Prop where
  performed : d.report.performed = d'.report.performed
  stages : d.attempts.map Attempt.stage = d'.attempts.map Attempt.stage
  janitor : d.after.janitor j.slot = d'.after.janitor j.slot
  statistics : d.after.statisticsAt j.statistics = d'.after.statisticsAt j.statistics

variable {R : Store α → Store α → Prop} {j : Janitor} {p : Provider} {m m' : Store α}

namespace Store.Call.SameEffect

theorem pure (x y : β) : Call.SameEffect R (Pure.pure x : Call α β) (Pure.pure y) := fun _ _ h => h

theorem bind {f f' : Call α β} {g g' : β → Call α γ} (hf : f.SameEffect R f')
    (hg : ∀ x x', (g x).SameEffect R (g' x')) : (f >>= g).SameEffect R (f' >>= g') :=
  fun m m' h => hg _ _ _ _ (hf m m' h)

theorem get {f g : Store α → Call α β} (h : ∀ m m', R m m' → (f m).SameEffect R (g m')) :
    (MonadState.get >>= f).SameEffect R (MonadState.get >>= g) := fun m m' hm => h m m' hm m m' hm

end Store.Call.SameEffect

namespace Store.Call.SameAttempts

theorem nil : (pure [] : Call α (List Attempt)).SameAttempts R (pure []) := fun _ _ h => ⟨rfl, h⟩

theorem get {f g : Store α → Call α (List Attempt)} (h : ∀ m m', R m m' → (f m).SameAttempts R (g m')) :
    (MonadState.get >>= f).SameAttempts R (MonadState.get >>= g) := fun m m' hm => h m m' hm m m' hm

theorem after {f f' : Call α β} {g g' : β → Call α (List Attempt)} (hf : f.SameEffect R f')
    (hg : ∀ x x', (g x).SameAttempts R (g' x')) : (f >>= g).SameAttempts R (f' >>= g') :=
  fun m m' h => hg _ _ _ _ (hf m m' h)

theorem append {f f' : Call α (List Attempt)} {g g' : List Attempt → Call α (List Attempt)}
    (hf : f.SameAttempts R f') (hg : ∀ as as', (g as).SameAttempts R (g' as')) :
    (f >>= fun as => g as >>= fun bs => pure (as ++ bs)).SameAttempts R
      (f' >>= fun as => g' as >>= fun bs => pure (as ++ bs)) := by
  intro m m' h
  obtain ⟨hstages, hstore⟩ := hf m m' h
  obtain ⟨hstages', hstore'⟩ := hg (f.run m).1 (f'.run m').1 _ _ hstore
  simp only [Call.run_bind, Call.run_pure, List.map_append, hstages, hstages']
  exact ⟨trivial, hstore'⟩

theorem provided {reason reason' : Store α → Bool} {f g : Call α (List Attempt)}
    (hreason : ∀ m m', R m m' → reason m = reason' m') (h : f.SameAttempts R g) :
    (Attempt.provided reason f).SameAttempts R (Attempt.provided reason' g) := by
  intro m m' hm
  rw [Attempt.run_provided, Attempt.run_provided, hreason m m' hm]
  split
  · exact h m m' hm
  · exact nil m m' hm

end Store.Call.SameAttempts

namespace Store.JanitorEquiv

variable (hR : JanitorEquiv R j)

include hR

theorem onJanitor (f : JanitorState → JanitorState) :
    (Store.onJanitor j.slot f).SameEffect R (Store.onJanitor j.slot f) := fun _ _ h => hR.change f h

theorem onStatistics (f : Statistics → Statistics) :
    (Store.onStatistics j.statistics f).SameEffect R (Store.onStatistics j.statistics f) :=
  fun _ _ h => hR.charge f h

theorem note (e : Event) : (Store.note e).SameEffect R (Store.note e) := fun _ _ h => hR.noted e h

theorem record (r r' : Report) (provider provider' : ProviderId) (stage : Stage)
    (outcome outcome' : Outcome StreamError Unit) :
    (r.record provider stage outcome).SameEffect R (r'.record provider' stage outcome') := by
  unfold Report.record
  intro m m' h
  cases outcome.complaint with
  | none =>
    cases outcome'.complaint with
    | none => exact h
    | some detail' => exact hR.fault_right _ h
  | some detail =>
    cases outcome'.complaint with
    | none => exact hR.fault_left _ h
    | some detail' => exact hR.fault_left _ (hR.fault_right _ h)

theorem make (id id' : ProviderId) (stage : Stage) (ends : β → Outcome StreamError Unit)
    {step step' : Call α β}
    (h : step.SameEffect R step') :
    (Attempt.make id stage ends step).SameEffect R (Attempt.make id' stage ends step') := by
  refine .get fun _ _ _ => ?_
  refine .bind h fun _ _ => ?_
  refine .get fun _ _ _ => ?_
  refine .bind (hR.record _ _ _ _ _ _ _) fun _ _ => ?_
  exact .pure _ _

theorem tryClose (hp : j.delegate.SameEffect R p) (left : Nat) :
    (j.tryClose (switches left)).SameAttempts R
    (Janitor.tryClose (switches left) { j with delegate := p }) := by
  have hsame : (j.tryClose (switches left)).SameEffect R
      (Janitor.tryClose (switches left) { j with delegate := p }) := by
    have hclose : (j.delegate.close (switches left) (some j.slot)).SameEffect R
        (p.close (switches left) (some j.slot)) := by
      rw [Provider.close_some, Provider.close_some]
      exact .bind (hR.onJanitor _) fun _ _ => hp.close left
    have hid : Janitor.id { j with delegate := p } = j.id := hp.id.symm
    rw [Janitor.tryClose, Janitor.tryClose, hid]
    refine .bind (hR.make _ _ _ _ hclose) fun _ _ => ?_
    refine .bind (hR.onStatistics _) fun _ _ => ?_
    refine .bind (hR.note _) fun _ _ => ?_
    exact .pure _ _
  exact fun m m' h => ⟨rfl, hsame m m' h⟩

theorem tryRelease (hp : j.delegate.SameEffect R p) (left : Nat) (before before' : List Attempt) :
    (j.tryRelease (switches left) before).SameAttempts R
      (Janitor.tryRelease (switches left) { j with delegate := p } before') := by
  have hsame : (j.tryRelease (switches left) before).SameEffect R
      (Janitor.tryRelease (switches left) { j with delegate := p } before') := by
    have hrelease : (j.delegate.release (switches left) (some j.slot)).SameEffect R
        (p.release (switches left) (some j.slot)) := by
      rw [Provider.release_some, Provider.release_some]
      exact .bind (hR.onJanitor _) fun _ _ => hp.release left
    have hid : Janitor.id { j with delegate := p } = j.id := hp.id.symm
    rw [Janitor.tryRelease, Janitor.tryRelease, hid]
    refine .bind (hR.make _ _ _ _ hrelease) fun x x' => ?_
    refine .get fun m m' h => ?_
    dsimp only
    rw [hR.janitor h]
    refine .bind (hR.onStatistics _) fun _ _ => ?_
    refine .bind (fun _ _ h => hR.released _ _ _ h) fun _ _ => ?_
    exact .pure _ _
  exact fun m m' h => ⟨rfl, hsame m m' h⟩

theorem attempts (hp : j.delegate.SameEffect R p) (left : Nat) (ending : Ending) :
    (j.attempts left ending).SameAttempts R (Janitor.attempts left ending { j with delegate := p }) := by
  induction left generalizing ending with
  | zero => exact .nil
  | succ left ih =>
    cases ending with
    | close =>
      refine .get fun m m' h => ?_
      rw [hR.janitor h]
      split
      · exact .nil
      · refine .after (hR.onJanitor _) fun _ _ => ?_
        refine .append (hR.tryClose hp left) fun _ _ => ?_
        refine .provided (fun m m' h => ?_) (ih .release)
        rw [hR.janitor h]
    | release =>
      refine .get fun m m' h => ?_
      rw [hR.janitor h]
      split
      · exact .nil
      · refine .after (hR.onJanitor _) fun _ _ => ?_
        refine .append (ih .close) fun as as' => ?_
        exact hR.tryRelease hp left as as'

theorem outAttempts (hp : j.delegate.SameEffect R p) (left : Nat) :
    (j.outAttempts left).SameAttempts R (Janitor.outAttempts left { j with delegate := p }) := by
  refine .get fun m m' h => ?_
  dsimp only
  rw [hR.janitor h]
  refine .after (hR.onJanitor _) fun _ _ => ?_
  refine .provided (fun m m' h => ?_) (hR.attempts hp left .release)
  rw [hR.janitor h]

theorem cursorAttempts (hp : j.delegate.SameEffect R p) (left : Nat)
    {step step' : Call α (Outcome StreamError Unit × Cursor)} (hstep : step.SameEffect R step')
    (h : R m m') :
    ((j.cursorAttempts left step).run m).1.1.map Attempt.stage =
        ((Janitor.cursorAttempts left { j with delegate := p } step').run m').1.1.map Attempt.stage ∧
      R ((j.cursorAttempts left step).run m).2
        ((Janitor.cursorAttempts left { j with delegate := p } step').run m').2 := by
  have hbegun : R (if (m.janitor j.slot).released then m else m.charge j.statistics (·.closeCursors 1))
      (if (m'.janitor j.slot).released then m' else m'.charge j.statistics (·.closeCursors 1)) := by
    rw [hR.janitor h]
    split
    · exact h
    · exact hR.charge _ h
  have hmade := hR.make j.id p.id .releaseCursor Prod.fst hstep _ _ hbegun
  obtain ⟨hstages, hstore⟩ := hR.outAttempts hp left _ _ hmade
  rw [Janitor.run_cursorAttempts, Janitor.run_cursorAttempts]
  exact ⟨congrArg (Stage.releaseCursor :: ·) hstages, hstore⟩

theorem op (hp : j.delegate.SameEffect R p) {op op' : JanitorOp} (hsame : op.SameEffect R op') (left : Nat) :
    (op.attempts left j).SameAttempts R (op'.attempts left { j with delegate := p }) := by
  cases hsame with
  | close => exact hR.attempts hp left .close
  | release => exact .after (hR.onJanitor _) fun _ _ => hR.attempts hp left .release
  | releaseCursor h => exact fun _ _ hm => hR.cursorAttempts hp left (h left) hm

theorem perform (hp : j.delegate.SameEffect R p) {op op' : JanitorOp} (hsame : op.SameEffect R op')
    (h : R m m') :
    (j.perform m op).Alike j (Janitor.perform { j with delegate := p } m' op') ∧
      R (j.perform m op).after (Janitor.perform { j with delegate := p } m' op').after := by
  have hleft : (op'.attempts m.endings { j with delegate := p }).run m' =
      (op'.attempts m'.endings { j with delegate := p }).run m' := by rw [hR.endings h]
  obtain ⟨hstages, hstore⟩ := hR.op hp hsame m.endings m m' h
  rw [hleft] at hstages hstore
  rw [← Janitor.after_perform, ← Janitor.after_perform] at hstore
  have hreported := (j.reported_perform m op).report
  have hreported' := (Janitor.reported_perform { j with delegate := p } m' op').report
  refine ⟨⟨?_, hstages, hR.janitor hstore, hR.statistics hstore⟩, hstore⟩
  have hempty := congrArg List.isEmpty hstages
  rw [List.isEmpty_map, List.isEmpty_map] at hempty
  rw [hreported, hreported']
  exact congrArg Bool.not hempty

theorem course (hp : j.delegate.SameEffect R p) {ops ops' : List JanitorOp}
    (hsame : List.Forall₂ (JanitorOp.SameEffect R) ops ops') (h : R m m') :
    List.Forall₂ (OpRecord.Alike j) (j.course m ops)
      (Janitor.course { j with delegate := p } m' ops') := by
  induction hsame generalizing m m' with
  | nil => exact .nil
  | cons hop _ ih =>
    obtain ⟨halike, hafter⟩ := hR.perform hp hop h
    exact .cons halike (ih hafter)

end Store.JanitorEquiv

section scripts

/-- Acts with an outcome and no effect on the store. -/
def Act.EffectFree : Act → Prop
  | .pass | .panic _ | .fail (.fixed _) => True
  | _ => False

structure Script.SameEffect (s s' : Script) : Prop where
  onClose : s.onClose = s'.onClose
  onRelease : s.onRelease = s'.onRelease
  afterClose : ∀ call, (s.afterClose call).EffectFree ∧ (s'.afterClose call).EffectFree
  afterRelease : ∀ call, (s.afterRelease call).EffectFree ∧ (s'.afterRelease call).EffectFree

theorem Act.EffectFree.run {act : Act} (h : act.EffectFree) (w : Switches α) (slot : Nat) (m : Store α) :
    ((act.perform w slot).run m).2 = m := by
  cases act with
  | pass => rfl
  | outer ending => exact h.elim
  | panic p => rfl
  | fail cue =>
    cases cue with
    | fixed e => rfl
    | providerClosed => exact h.elim

namespace Store

/-- The janitor does not read the log. -/
theorem janitorEquiv_sameButLog (j : Janitor) : JanitorEquiv (SameButLog (α := α)) j where
  endings h := h.read endings fun _ => rfl
  janitor h := teardownCongr_log.janitor h j.slot
  statistics h := h.read (fun m => m.statisticsAt j.statistics) fun _ => rfl
  change f h := h.map (fun m => m.change j.slot f) fun _ => rfl
  charge f h := h.map (fun m => m.charge j.statistics f) fun _ => rfl
  noted _ h := h
  released _ _ _ h := h
  fault_left _ h := h
  fault_right _ h := h

namespace Call.SameEffect

theorem following {f f' : Call α β} {g g' : β → Call α γ} (hf : f.Along R f')
    (hg : ∀ x, (g x).SameEffect R (g' x)) : (f >>= g).SameEffect R (f' >>= g') := by
  intro m m' h
  obtain ⟨x, n, n', hrun, hrun', hstate⟩ := (hf m m' h).split
  rw [Call.run_bind, Call.run_bind, hrun, hrun']
  exact hg x n n' hstate

theorem still {f g : Call α β} (hf : ∀ m, (f.run m).2 = m) (hg : ∀ m, (g.run m).2 = m) :
    f.SameEffect R g := by
  intro m m' h
  rwa [hf, hg]

end Call.SameEffect
end Store

variable {s s' : Script}

theorem Script.SameEffect.provider (h : s.SameEffect s') (slot : Nat) (inner : Provider) :
    (Provider.scripted slot s inner).SameEffect (SameButLog (α := α)) (.scripted slot s' inner) where
  id := rfl
  close left := by
    have hw := teardownCongr_switches (teardownCongr_log (α := α)) left
    refine .following (.pure _) fun _ => ?_
    refine .get fun m m' hm => ?_
    rw [hw.script hm slot, h.onClose]
    refine .following (hw.onScript slot _) fun _ => ?_
    refine .following (hw.perform slot _) fun x => ?_
    cases x with
    | error stop => exact .pure _ _
    | ok =>
      refine .following (hw.closeProvider none inner) fun x => ?_
      cases x with
      | error stop => exact .pure _ _
      | ok => exact .still ((h.afterClose _).1.run _ slot) ((h.afterClose _).2.run _ slot)
  release left := by
    have hw := teardownCongr_switches (teardownCongr_log (α := α)) left
    refine .following (.pure _) fun _ => ?_
    refine .get fun m m' hm => ?_
    rw [hw.script hm slot, h.onRelease]
    refine .following (hw.onScript slot _) fun _ => ?_
    refine .following (hw.perform slot _) fun x => ?_
    cases x with
    | error stop => exact .pure _ _
    | ok =>
      refine .following (hw.releaseProvider none inner) fun x => ?_
      cases x with
      | error stop => exact .pure _ _
      | ok => exact .still ((h.afterRelease _).1.run _ slot) ((h.afterRelease _).2.run _ slot)

theorem Act.EffectFree.run_release {act : Act} (h : act.EffectFree) (w : Switches α) (slot feed : Nat)
    (provider : ProviderId) (head : Head) (m : Store α) :
    (((Cursor.watched slot act (.plain feed provider head)).release w).run m).2 = m := by
  cases act with
  | pass => rfl
  | outer ending => exact h.elim
  | panic p => rfl
  | fail cue =>
    cases cue with
    | fixed e => rfl
    | providerClosed => exact h.elim

theorem Act.EffectFree.op {act act' : Act} (h : act.EffectFree) (h' : act'.EffectFree) (slot feed : Nat)
    (provider : ProviderId) (head : Head) :
    (JanitorOp.releaseCursor (.watched slot act (.plain feed provider head))).SameEffect (SameButLog (α := α))
      (.releaseCursor (.watched slot act' (.plain feed provider head))) :=
  .releaseCursor fun left => .still (h.run_release (switches left) slot feed provider head)
    (h'.run_release (switches left) slot feed provider head)

end scripts

/-- Two runs of the same operations, over delegates with the same effects but any outcomes: flags,
counters, statistics and the stages attempted agree after each operation, and each report lists the
faults of its own attempts in order, each of them logged. -/
theorem Janitor.same_course (hR : JanitorEquiv R j) (hp : j.delegate.SameEffect R p)
    {ops ops' : List JanitorOp}
    (hsame : List.Forall₂ (JanitorOp.SameEffect R) ops ops') (h : R m m') :
    List.Forall₂ (OpRecord.Alike j) (j.course m ops)
        (Janitor.course { j with delegate := p } m' ops') ∧
      (∀ d ∈ j.course m ops, d.Reported j.id) ∧
        ∀ d ∈ Janitor.course { j with delegate := p } m' ops', d.Reported j.id := by
  refine ⟨hR.course hp hsame h, j.reported_course m ops, ?_⟩
  have hid : Janitor.id { j with delegate := p } = j.id := hp.id.symm
  rw [← hid]
  exact Janitor.reported_course _ m' ops'

/-- The first delegate fails to close and panics on release, and a cursor panics on release; in the
second run nothing fails. -/
theorem Janitor.same_course_failing :
    let base : Provider := .base 0 ⟨1⟩ 0
    let m : Store Nat := StoreOp.run {} [.addSource (.bare #[1]), .addBuffer ⟨1, 1, .unbounded, .owned⟩ 0,
      .addBase 0, .addScripted {} base, .addStatistics, .addJanitor 0 1 base]
    let j : Janitor := ⟨0, 0, .scripted 0 {} base⟩
    let bad : Script := { afterClose := fun _ => .fail (.fixed .bufferClosed)
                          afterRelease := fun _ => .panic ⟨none⟩ }
    let j' : Janitor := { j with delegate := .scripted 0 bad base }
    let ops (act : Act) : List JanitorOp :=
      [.close, .releaseCursor (.watched 0 act (.plain 0 ⟨1⟩ {})), .release]
    List.Forall₂ (OpRecord.Alike j) (j.course m (ops .pass))
        (j'.course m (ops (.panic ⟨some "stuck"⟩))) ∧
      (j.course m (ops .pass)).map (·.report) = [⟨true, []⟩, ⟨true, []⟩, ⟨false, []⟩] ∧
        (j'.course m (ops (.panic ⟨some "stuck"⟩))).map (·.report) =
          [⟨true, [⟨⟨1⟩, .closeProvider, "streaming buffer is closed"⟩]⟩,
            ⟨true, [⟨⟨1⟩, .releaseCursor, "panicked: stuck"⟩,
              ⟨⟨1⟩, .releaseProvider, "panicked: non-string panic payload"⟩]⟩, ⟨false, []⟩] := by
  intro base m j bad j' ops
  have hsame : Script.SameEffect {} bad :=
    ⟨rfl, rfl, fun _ => ⟨trivial, trivial⟩, fun _ => ⟨trivial, trivial⟩⟩
  have hpass : Act.EffectFree .pass := trivial
  have hpanic : Act.EffectFree (.panic ⟨some "stuck"⟩) := trivial
  have hops : List.Forall₂ (JanitorOp.SameEffect (SameButLog (α := Nat))) (ops .pass)
      (ops (.panic ⟨some "stuck"⟩)) :=
    .cons .close (.cons (hpass.op hpanic 0 0 ⟨1⟩ {}) (.cons .release .nil))
  have hm : m.SameButLog m := rfl
  obtain ⟨halike, -, -⟩ := Janitor.same_course (janitorEquiv_sameButLog j) (hsame.provider 0 base) hops hm
  exact ⟨halike, by decide, by decide⟩

end Replay
