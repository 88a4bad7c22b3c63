import Replay.Proofs.Contexts
import Replay.Proofs.Janitor.StoreOps

/-!
Flags stay set over every store operation, and every janitor stays `Orderly`. Teardown only advances a
store; making and opening add to it.
-/
namespace Replay

open Store

variable {α β γ : Type}

namespace Store

/-- Janitors may be added, and flags stay set. -/
structure FlagsPersist (m m' : Store α) : Prop where
  size : m.janitors.size ≤ m'.janitors.size
  closed : ∀ slot < m.janitors.size, (m.janitor slot).closed → (m'.janitor slot).closed
  released : ∀ slot < m.janitors.size, (m.janitor slot).released → (m'.janitor slot).released

variable {m m' m'' : Store α} {n : Nat}

namespace FlagsPersist

theorem refl (m : Store α) : m.FlagsPersist m := ⟨le_rfl, fun _ _ => id, fun _ _ => id⟩

theorem trans (h : m.FlagsPersist m') (h' : m'.FlagsPersist m'') : m.FlagsPersist m'' where
  size := h.size.trans h'.size
  closed slot hlt hc := h'.closed slot (hlt.trans_le h.size) (h.closed slot hlt hc)
  released slot hlt hr := h'.released slot (hlt.trans_le h.size) (h.released slot hlt hr)

theorem of_janitors (h : m'.janitors = m.janitors) : m.FlagsPersist m' := by
  have hjanitor : ∀ slot, m'.janitor slot = m.janitor slot := fun slot => by rw [janitor, h, janitor]
  exact ⟨by rw [h], fun slot _ => by rw [hjanitor]; exact id, fun slot _ => by rw [hjanitor]; exact id⟩

end FlagsPersist

theorem FlagsMono.lasts (h : m.FlagsMono m') : m.FlagsPersist m' :=
  ⟨h.size.ge, fun slot _ => h.closed slot, fun slot _ => h.released slot⟩

theorem Advances.lasts (h : m.Advances m') : m.FlagsPersist m' := h.flagsMono.lasts

/-- Flags stay set, and nothing is added that can be ended except buffers. -/
def Call.AddsBuffersOnly (n : Nat) (f : Call α β) : Prop :=
  ∀ m : Store α, m.endings ≤ n → (f.run m).2.endings ≤ n ∧ m.FlagsPersist (f.run m).2

namespace Call

theorem Ends.addsBuffersOnly {f : Call α β} (hf : f.Ends n) : f.AddsBuffersOnly n := by
  intro m hn
  have h := hf m (m.pending_le_endings.trans hn)
  exact ⟨h.endings.trans_le hn, h.lasts⟩

theorem addsBuffersOnly_pure (r : β) : Call.AddsBuffersOnly n (pure r : Call α β) :=
  (Ends.pure r).addsBuffersOnly

theorem AddsBuffersOnly.bind {f : Call α β} {g : β → Call α γ} (hf : f.AddsBuffersOnly n)
    (hg : ∀ r, (g r).AddsBuffersOnly n) : (f >>= g).AddsBuffersOnly n := by
  intro m hn
  obtain ⟨hn', hm'⟩ := hf m hn
  obtain ⟨hn'', hm''⟩ := hg _ _ hn'
  exact ⟨hn'', hm'.trans hm''⟩

theorem AddsBuffersOnly.of_janitors {f : Call α β} (hj : ∀ m, (f.run m).2.janitors = m.janitors)
    (hf : ∀ m, (f.run m).2.feeds.cells.size = m.feeds.cells.size) : f.AddsBuffersOnly n := by
  intro m hn
  refine ⟨?_, .of_janitors (hj m)⟩
  rw [endings, hj, hf]
  exact hn

def KeepsOrderly (f : Call α β) : Prop :=
  ∀ m : Store α, m.FlagsPersist (f.run m).2 ∧ (m.Orderly → (f.run m).2.Orderly)

theorem keepsOrderly_pure (r : β) : KeepsOrderly (pure r : Call α β) := fun m => ⟨.refl m, id⟩

theorem KeepsOrderly.bind {f : Call α β} {g : β → Call α γ} (hf : f.KeepsOrderly)
    (hg : ∀ r, (g r).KeepsOrderly) :
    (f >>= g).KeepsOrderly := by
  intro m
  obtain ⟨hpersist, horder⟩ := hf m
  obtain ⟨hpersist', horder'⟩ := hg _ (f.run m).2
  exact ⟨hpersist.trans hpersist', horder' ∘ horder⟩

theorem KeepsOrderly.of_janitors {f : Call α β} (hj : ∀ m, (f.run m).2.janitors = m.janitors) :
    f.KeepsOrderly := fun m => ⟨.of_janitors (hj m), fun hm => hm.of_janitors (hj m)⟩

theorem KeepsOrderly.withSwitches {f : Switches α → Call α β}
    (hr : ∀ n w, w.Suffice n → (f w).AddsBuffersOnly n)
    (hk : ∀ n w, w.Suffice n → (f w).PreservesEndings n) : (Replay.withSwitches f).KeepsOrderly := by
  intro m
  have hsuffice := suffice_switches (α := α) m.endings
  exact ⟨(hr _ _ hsuffice m le_rfl).2, fun hm => (hk _ _ hsuffice m le_rfl hm).2⟩

theorem KeepsOrderly.ending {f : Switches α → Call α β} (hf : ∀ n w, w.Suffice n → (f w).Ends n) :
    (Replay.withSwitches f).KeepsOrderly :=
  .withSwitches (fun n w hw => (hf n w hw).addsBuffersOnly) fun n w hw => (hf n w hw).keeps

end Call

theorem FlagsPersist.of_push {t : JanitorState} (h : m'.janitors = m.janitors.push t) :
    m.FlagsPersist m' := by
  have hjanitor : ∀ slot < m.janitors.size, m'.janitor slot = m.janitor slot := by
    intro slot hlt
    rw [janitor, h, Array.getD_eq_getD_getElem?, Array.getElem?_push, if_neg (Nat.ne_of_lt hlt), janitor,
      Array.getD_eq_getD_getElem?]
  refine ⟨?_, fun slot hlt => ?_, fun slot hlt => ?_⟩
  · rw [h, Array.size_push]
    exact Nat.le_succ _
  · rw [hjanitor slot hlt]
    exact id
  · rw [hjanitor slot hlt]
    exact id

theorem keepsOrderly_addManaged (statistics : Nat) (hook : Hook) (inner : Provider) :
    (addManaged (α := α) statistics hook inner).KeepsOrderly :=
  fun m => ⟨.of_push rfl, preservesOrderly_addManaged statistics hook inner m le_rfl⟩

theorem keepsOrderly_manageProvider (manager : Nat) (inner : Provider) (context : String) :
    (Manager.manageProvider (α := α) manager inner context).KeepsOrderly := by
  refine .bind (.of_janitors fun _ => rfl) fun m => ?_
  split
  · exact Call.keepsOrderly_pure _
  · exact .bind (keepsOrderly_addManaged _ _ _) fun _ => .of_janitors fun _ => rfl

theorem keepsOrderly_addBase (feed : Nat) : (addBase (α := α) feed).KeepsOrderly :=
  .bind (.of_janitors fun _ => rfl) fun _ => .of_janitors fun _ => rfl

theorem keepsOrderly_addManager (config : Config) : (addManager (α := α) config).KeepsOrderly :=
  .of_janitors (janitors_addManager config)

end Store

variable {w : Switches α} {n : Nat}

theorem CursorOp.keepsOrderly (c : Cursor) (t : CursorOp) : (t.perform (α := α) c).KeepsOrderly := by
  cases t with
  | seek position =>
    rw [CursorOp.perform]
    cases c.seek position with
    | ok d => exact Call.keepsOrderly_pure _
    | error e => exact Call.keepsOrderly_pure _
  | release =>
    exact .bind (.ending fun _ _ hw => hw.releaseLayers c) fun _ => Call.keepsOrderly_pure _
  | close => exact .bind (.ending fun _ _ hw => hw.closeLayers c) fun _ => Call.keepsOrderly_pure _
  | hasNext => exact .of_janitors fun _ => rfl
  | next => exact .of_janitors fun _ => rfl
  | read room => exact .of_janitors fun _ => rfl
  | items count => exact .of_janitors fun _ => rfl
  | drain most => exact .of_janitors fun _ => rfl

theorem Cursor.addsBuffersOnly_skip (count : Nat) (c : Cursor) :
    (c.skip (α := α) count).AddsBuffersOnly n := by
  induction count generalizing c with
  | zero => exact Call.addsBuffersOnly_pure _
  | succ count ih =>
    have hread : (c.read (α := α)).AddsBuffersOnly n :=
      .of_janitors (fun _ => rfl) fun _ => c.size_nextBy Feeds.sizePreserving_draw rfl
    refine hread.bind fun r => ?_
    rcases r with ⟨(_ | _) | _, c'⟩
    · exact ih c'
    · exact Call.addsBuffersOnly_pure _
    · exact ih c'

namespace Switches.Suffice

theorem addsBuffersOnly_applyHook (hw : w.Suffice n) (j : Janitor) (c : Cursor) (hook : Hook) :
    (hook.apply w j c).AddsBuffersOnly n := by
  cases hook with
  | skip count =>
    refine (Cursor.addsBuffersOnly_skip count _).bind fun r => ?_
    rcases r with ⟨_ | _, c'⟩
    · exact (hw.dropCursor c').addsBuffersOnly.bind fun _ => Call.addsBuffersOnly_pure _
    · exact Call.addsBuffersOnly_pure _
  | released => exact (hw.releaseLayers _).addsBuffersOnly.bind fun _ => Call.addsBuffersOnly_pure _
  | plain => exact Call.addsBuffersOnly_pure _
  | raw => exact Call.addsBuffersOnly_pure _
  | seek position => exact Call.addsBuffersOnly_pure _
  | doubled => exact Call.addsBuffersOnly_pure _

theorem addsBuffersOnly_countCursor (hw : w.Suffice n) (j : Janitor) (hook : Hook) (c : Cursor)
    (e : StreamError) :
    (j.countCursor w hook c e).AddsBuffersOnly n := by
  have hcount : (onJanitor (α := α) j.slot fun t =>
      { t with openCursors := t.openCursors + 1 }).AddsBuffersOnly n := by
    intro m hn
    have hflags : m.FlagsMono (m.change j.slot fun t => { t with openCursors := t.openCursors + 1 }) :=
      .of_change (fun _ => id) fun _ => id
    refine ⟨?_, hflags.lasts⟩
    rw [run_onJanitor, endings, size_change]
    exact hn
  refine hcount.bind fun _ => (ends_onStatistics _ _).addsBuffersOnly.bind fun _ =>
    Call.Ends.get.addsBuffersOnly.bind fun m => ?_
  split
  · exact (ends_onStatistics _ _).addsBuffersOnly.bind fun _ =>
      (hw.releaseCursor j (hw.releaseLayers c)).ends.addsBuffersOnly.bind
        fun r => (hw.dropCursor r.2).addsBuffersOnly.bind fun _ => Call.addsBuffersOnly_pure _
  · exact hw.addsBuffersOnly_applyHook j c hook

theorem addsBuffersOnly_openCursor (hw : w.Suffice n) (p : Provider) :
    (p.openCursor w).AddsBuffersOnly n := by
  induction p with
  | base slot id feed =>
    refine Call.Ends.get.addsBuffersOnly.bind fun m => ?_
    split
    · exact Call.addsBuffersOnly_pure _
    · exact Call.addsBuffersOnly_pure _
  | managed slot statistics hook inner ih =>
    refine Call.Ends.get.addsBuffersOnly.bind fun m => ?_
    split
    · exact Call.addsBuffersOnly_pure _
    · refine ih.bind fun r => ?_
      cases r with
      | error stop => exact Call.addsBuffersOnly_pure _
      | ok c => exact hw.addsBuffersOnly_countCursor ⟨slot, statistics, inner⟩ hook c _
  | scripted slot script inner ih =>
    refine Call.Ends.get.addsBuffersOnly.bind fun m => (ends_onScript slot _).addsBuffersOnly.bind fun _ =>
      (hw.perform slot _).addsBuffersOnly.bind fun r => ?_
    cases r with
    | error stop => exact Call.addsBuffersOnly_pure _
    | ok =>
      refine ih.bind fun r => ?_
      cases r with
      | error stop => exact Call.addsBuffersOnly_pure _
      | ok c =>
        refine (hw.perform slot _).addsBuffersOnly.bind fun r => ?_
        cases r with
        | error stop => exact (hw.dropCursor c).addsBuffersOnly.bind fun _ => Call.addsBuffersOnly_pure _
        | ok =>
          dsimp only
          split
          · exact Call.addsBuffersOnly_pure _
          · exact Call.addsBuffersOnly_pure _

theorem addsBuffersOnly_addBuffer (hw : w.Suffice n) (config : Config) (feed : Nat) :
    (Store.addBuffer w config feed).AddsBuffersOnly n := by
  refine Call.Ends.get.addsBuffersOnly.bind fun m => ?_
  dsimp only
  split
  · exact (hw.dropSource feed).addsBuffersOnly.bind fun _ => Call.addsBuffersOnly_pure _
  · exact .bind (.of_janitors (fun _ => rfl) fun _ => Feeds.size_setBuffer ..) fun _ =>
      Call.addsBuffersOnly_pure _

end Switches.Suffice

theorem keepsOrderly_openCursor (p : Provider) :
    (withSwitches (α := α) fun w => p.openCursor w).KeepsOrderly :=
  .withSwitches (fun _ _ hw => hw.addsBuffersOnly_openCursor p) fun _ _ hw => hw.openCursor p

theorem keepsOrderly_addBuffer (config : Config) (feed : Nat) :
    (withSwitches (α := α) fun w => Store.addBuffer w config feed).KeepsOrderly :=
  .withSwitches (fun _ _ hw => hw.addsBuffersOnly_addBuffer config feed)
    fun _ _ hw => hw.addBuffer config feed

theorem keepsOrderly_manage (manager feed : Nat) (context : String) :
    (withSwitches (α := α) fun w => Manager.manage w manager feed context).KeepsOrderly := by
  intro m
  rw [Call.run_withSwitches]
  cases ht : m.manager? manager with
  | none =>
    rw [Manager.run_manage_none ht]
    exact Call.keepsOrderly_pure _ m
  | some t =>
    have hrest : Call.KeepsOrderly (α := α) (do
        let base ← Store.addBase feed
        let p ← Manager.manageProvider manager base context
        return (.ok p : Except StreamError (Option Provider))) := by
      refine .bind (keepsOrderly_addBase feed) fun base => ?_
      refine .bind (keepsOrderly_manageProvider manager base context) fun _ => ?_
      exact Call.keepsOrderly_pure _
    have hadded := keepsOrderly_addBuffer t.config feed m
    rw [Call.run_withSwitches] at hadded
    rw [Manager.run_manage ht]
    rcases hrun : (Store.addBuffer (switches m.endings) t.config feed).run m with ⟨e | u, m'⟩
    · rw [hrun] at hadded
      exact hadded
    · rw [hrun] at hadded
      exact ⟨hadded.1.trans (hrest m').1, (hrest m').2 ∘ hadded.2⟩

namespace StoreOp

theorem flagsPersist_perform (m : Store α) (d : StoreOp α) : m.FlagsPersist (d.perform m) := by
  have hending : ∀ {β : Type} {f : Switches α → Call α β}, (∀ n w, w.Suffice n → (f w).Ends n) →
      m.FlagsPersist (m.afterWith f) := fun hf => (Call.KeepsOrderly.ending hf m).1
  cases d with
  | addBuffer config feed => exact (keepsOrderly_addBuffer config feed m).1
  | addBase feed => exact (keepsOrderly_addBase feed m).1
  | addManaged statistics hook inner => exact (keepsOrderly_addManaged statistics hook inner m).1
  | addJanitor statistics openCursors delegate => exact .of_push rfl
  | addManager config => exact (keepsOrderly_addManager config m).1
  | manageProvider manager inner context => exact (keepsOrderly_manageProvider manager inner context m).1
  | manage manager feed context => exact (keepsOrderly_manage manager feed context m).1
  | complete manager context => exact hending fun _ _ hw => hw.complete manager context
  | dispose manager => exact hending fun _ _ hw => hw.dispose manager
  | openCursor p => exact (keepsOrderly_openCursor p m).1
  | close j => exact hending fun _ _ hw => hw.close j
  | release j => exact hending fun _ _ hw => hw.demand j
  | releaseCursor j c => exact hending fun _ _ hw => (hw.releaseCursor j (hw.releaseLayers c)).ends
  | endProvider p ending =>
    cases ending with
    | close => exact hending fun _ _ hw => hw.closeProvider p
    | release => exact hending fun _ _ hw => hw.releaseProvider p
  | cursorOp c t => exact (t.keepsOrderly c m).1
  | drop c => exact hending fun _ _ hw => hw.dropCursor c
  | closeSource feed => exact hending fun _ _ hw => hw.closeSource feed
  | closeBuffer feed =>
    exact hending fun _ _ hw m hn => hw.closeOpenBuffer feed m (Nat.le_succ_of_le hn)
  | settle held => exact hending fun _ _ hw => hw.settle held
  | addSource | addScripted | bindOuter | addStatistics | addProviderId | pull | hasNext | bucketFor =>
    exact .of_janitors rfl

theorem flagsPersist_run (m : Store α) (ops : List (StoreOp α)) : m.FlagsPersist (run m ops) := by
  induction ops generalizing m with
  | nil => exact .refl m
  | cons d ds ih => exact (flagsPersist_perform m d).trans (ih (d.perform m))

end StoreOp

end Replay
