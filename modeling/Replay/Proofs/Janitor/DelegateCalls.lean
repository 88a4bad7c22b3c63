import Replay.Proofs.Carrying
import Replay.Proofs.Janitor.Ending

/-!
A janitor that closes or releases for the first time does call its delegate: afterwards a base delegate
is closed, a managed delegate has the flag set, and a scripted delegate has counted one call more.
-/
namespace Replay

open Store

variable {α β γ : Type}

/-- The effect of a call to `close` or `release_resources`, from the store before it to the store after.
-/
def Provider.Called (m m' : Store α) (ending : Ending) : Provider → Prop
  | base slot _ _ => slot < m.closedBases.size → m'.baseClosed slot
  | managed slot _ _ _ => (m'.janitor slot).past ending
  | scripted slot _ _ =>
    slot < m.scripts.size → (m.script slot).calls ending < (m'.script slot).calls ending

namespace Provider.Called

variable {m m' m'' : Store α} {ending : Ending} {p : Provider}

theorem before (h : p.Called m m' ending) (hm : m'.Persists m'') : p.Called m m'' ending := by
  cases p with
  | base slot name feed => exact fun hlt => hm.bases slot (h hlt)
  | managed slot statistics hook inner =>
    cases ending with
    | close => exact hm.closed slot h
    | release => exact hm.released slot h
  | scripted slot script inner => exact fun hlt => (h hlt).trans_le (hm.calls slot ending)

theorem after (hm : m.Persists m') (h : p.Called m' m'' ending) : p.Called m m'' ending := by
  cases p with
  | base slot name feed => exact fun hlt => h (hlt.trans_le hm.basesSize)
  | managed slot statistics hook inner => exact h
  | scripted slot script inner =>
    intro hlt
    calc (m.script slot).calls ending
      _ ≤ (m'.script slot).calls ending := hm.calls slot ending
      _ < (m''.script slot).calls ending := h (hlt.trans_le hm.scriptsSize)

theorem bind {f : Call α β} {g : β → Call α γ} (h : p.Called m (f.run m).2 ending)
    (hg : ∀ x, (g x).Within Persists) : p.Called m ((f >>= g).run m).2 ending :=
  h.before (hg _ _)

end Provider.Called

namespace Store

theorem steps_persists : Steps (fun _ _ : Feeds α => True) Persists where
  refl _ := trivial
  trans _ _ := trivial
  note _ _ := trivial
  next h h' := h.trans h'
  aside h := h.persists
  feeds _ := .of_eq rfl rfl rfl

theorem within_persists (left : Nat) :
    (switches left : Switches α).Within (fun _ _ => True) Persists :=
  .switches steps_persists
    (fun _ hw feed => hw.shutBuffer (Feeds.allowsSource_true feed) fun _ _ _ _ => trivial) left

theorem baseClosed_closeBase (m : Store α) {slot : Nat} (hlt : slot < m.closedBases.size) :
    ((closeBase slot).run m).2.baseClosed slot := by
  rw [closeBase, Call.run_modify]
  simp [baseClosed, hlt]

theorem calls_onScript (m : Store α) (ending : Ending) {slot : Nat} (hlt : slot < m.scripts.size) :
    (((onScript slot (·.call ending)).run m).2.script slot).calls ending =
      (m.script slot).calls ending + 1 := by
  rw [onScript, Call.run_modify]
  simp only [script, Array.getD_eq_getD_getElem?, Array.getElem?_modify, if_true,
    Array.getElem?_eq_getElem hlt, Option.map_some, Option.getD_some]
  cases ending with
  | close => rfl
  | release => rfl

end Store

namespace Provider

variable {w : Switches α} {n : Nat} {m : Store α}

theorem called_scripted (slot : Nat) (script : Script) (inner : Provider) (ending : Ending)
    {f : Unit → Call α β} (hf : ∀ x, (f x).Within Persists) :
    (scripted slot script inner).Called m ((onScript slot (·.call ending) >>= f).run m).2 ending := by
  intro hlt
  have hcalls := (hf () ((onScript slot (·.call ending)).run m).2).calls slot ending
  rw [calls_onScript m ending hlt] at hcalls
  exact hcalls

theorem called_close (hw : w.Suffice n) (hp : w.Within (fun _ _ => True) Persists) (p : Provider)
    (hm : m.pending ≤ n) : p.Called m ((p.close w none).run m).2 .close := by
  cases p with
  | base slot name feed =>
    intro hlt
    rw [close_base, Call.run_bind, Call.run_get]
    dsimp only
    split
    · assumption
    · exact baseClosed_closeBase m hlt
  | managed slot statistics hook inner => exact hw.closed ⟨slot, statistics, inner⟩ m hm
  | scripted slot script inner =>
    rw [close_scripted, Call.run_bind, Call.run_get]
    refine called_scripted slot script inner .close fun _ => ?_
    exact hp.layer slot _ _ (hp.closeProvider none inner)

theorem called_release (hw : w.Suffice n) (hp : w.Within (fun _ _ => True) Persists) (p : Provider)
    (hm : m.pending ≤ n) : p.Called m ((p.release w none).run m).2 .release := by
  cases p with
  | base slot name feed =>
    intro hlt
    exact (hp.closeBuffer feed _).bases slot (baseClosed_closeBase m hlt)
  | managed slot statistics hook inner => exact (hw.demanded ⟨slot, statistics, inner⟩ hm).2
  | scripted slot script inner =>
    rw [release_scripted, Call.run_bind, Call.run_get]
    refine called_scripted slot script inner .release fun _ => ?_
    exact hp.layer slot _ _ (hp.releaseProvider none inner)

end Provider

section

variable {w : Switches α} {n : Nat} {m : Store α}

theorem Janitor.called_closeDelegate (hw : w.Suffice n) (hp : w.Within (fun _ _ => True) Persists)
    (j : Janitor) (hm : m.pending ≤ n) : j.delegate.Called m ((j.closeDelegate w).run m).2 .close := by
  have hflags : m.FlagsMono (m.change j.slot fun t => { t with closings := t.closings + 1 }) :=
    .of_change (fun _ h => h) fun _ h => h
  rw [closeDelegate_eq, Call.run_bind, run_onJanitor]
  refine .after (.change hflags) ?_
  refine .bind (j.delegate.called_close hw hp (hflags.pending_le.trans hm)) fun _ => ?_
  refine hp.bind (hp.record _ _ _ _) fun _ => ?_
  refine hp.bind (hp.onStatistics _ _) fun _ => ?_
  refine hp.bind (hp.noting _) fun _ => ?_
  exact hp.pure _

theorem Janitor.called_releaseDelegate (hw : w.Suffice n) (hp : w.Within (fun _ _ => True) Persists)
    (j : Janitor) (report : Report) (hm : m.pending ≤ n) :
    j.delegate.Called m ((j.releaseDelegate w report).run m).2 .release := by
  have hflags : m.FlagsMono (m.change j.slot fun t => { t with releasings := t.releasings + 1 }) :=
    .of_change (fun _ h => h) fun _ h => h
  rw [releaseDelegate_eq, Call.run_bind, run_onJanitor]
  refine .after (.change hflags) ?_
  refine .bind (j.delegate.called_release hw hp (hflags.pending_le.trans hm)) fun _ => ?_
  refine hp.bind (hp.record _ _ _ _) fun _ => ?_
  refine hp.bind hp.get fun _ => ?_
  refine hp.bind (hp.onStatistics _ _) fun _ => ?_
  refine hp.bind (hp.noting _) fun _ => ?_
  exact hp.pure _

theorem Janitor.called_of_close (hw : w.Suffice n) (hp : w.Within (fun _ _ => True) Persists) (j : Janitor)
    (hm : m.pending ≤ n + 1) (hopen : (m.janitor j.slot).closed = false) :
    j.delegate.Called m ((j.close w).run m).2 .close := by
  have hflags : m.FlagsMono (m.change j.slot fun t => { t with closed := true }) :=
    .of_change (fun _ _ => rfl) fun _ h => h
  have hended := hflags.pending_lt
    (.closed j.slot hopen (by rw [janitor_change_self (lt_of_closed_eq_false hopen)]))
  rw [run_close_of_open hopen]
  refine .after (.change hflags) ?_
  refine .bind (j.called_closeDelegate hw hp (Nat.le_of_lt_succ (hended.trans_le hm))) fun _ => ?_
  refine hp.bind hp.get fun _ => ?_
  split
  · exact hp.bind (hp.release j) fun _ => hp.pure _
  · exact hp.pure _

theorem Janitor.called_of_release (hw : w.Suffice n) (hp : w.Within (fun _ _ => True) Persists) (j : Janitor)
    (hm : m.pending ≤ n + 1) (hopen : (m.janitor j.slot).released = false) :
    j.delegate.Called m ((j.release w).run m).2 .release := by
  have hflags : m.FlagsMono (m.change j.slot fun t => { t with released := true }) :=
    .of_change (fun _ h => h) fun _ _ => rfl
  have hended := hflags.pending_lt
    (.released j.slot hopen (by rw [janitor_change_self (lt_of_released_eq_false hopen)]))
  have hpending := Nat.le_of_lt_succ (hended.trans_le hm)
  rw [run_release_of_unreleased hopen]
  refine .after (.change hflags) ?_
  refine .after (hp.close j _) ?_
  exact j.called_releaseDelegate hw hp _ ((hw.close j _ hpending).pending_le.trans hpending)

end

end Replay
