import Replay.Proofs.Janitor.DelegateCalls
import Replay.Proofs.Janitor.Opening
import Replay.Proofs.Shared.SharedOps
import Replay.Reach

/-!
Every operation on a store, in any order. The providers, cursors and janitors are arguments of the
operation, so that a run may use those it has made, more than once, or any others.
-/
namespace Replay

open Store

variable {α β γ : Type}

inductive StoreOp (α : Type) where
  | addSource (source : Source α)
  | addBuffer (config : Config) (feed : Nat)
  | addBase (feed : Nat)
  | addScripted (script : Script) (inner : Provider)
  | bindOuter (slot : Nat) (outer : Janitor)
  | addStatistics
  | addProviderId
  | addManaged (statistics : Nat) (hook : Hook) (inner : Provider)
  | addJanitor (statistics openCursors : Nat) (delegate : Provider)
  | addManager (config : Config)
  | manageProvider (manager : Nat) (inner : Provider) (context : String)
  | manage (manager feed : Nat) (context : String)
  | complete (manager : Nat) (context : String)
  | dispose (manager : Nat)
  | openCursor (p : Provider)
  | close (j : Janitor)
  | release (j : Janitor)
  | releaseCursor (j : Janitor) (c : Cursor)
  | endProvider (p : Provider) (ending : Ending)
  | pull (feed : Nat)
  | hasNext (feed offset : Nat)
  | bucketFor (feed offset : Nat)
  | cursorOp (c : Cursor) (cursorOp : CursorOp)
  | drop (c : Cursor)
  | closeSource (feed : Nat)
  | closeBuffer (feed : Nat)
  | settle (held : Reach)

def Store.after (m : Store α) (f : Call α β) : Store α := (f.run m).2

theorem Store.Call.run_withSwitches (f : Switches α → Call α β) (m : Store α) :
    (withSwitches f).run m = (f (switches m.endings)).run m := rfl

def Store.afterWith (m : Store α) (f : Switches α → Call α β) : Store α := m.after (withSwitches f)

theorem Store.afterWith_eq (m : Store α) (f : Switches α → Call α β) :
    m.afterWith f = ((f (switches m.endings)).run m).2 := congrArg Prod.snd (Call.run_withSwitches f m)

namespace StoreOp

def perform (m : Store α) : StoreOp α → Store α
  | addSource source => m.after (Store.addSource source)
  | addBuffer config feed => m.afterWith fun w => Store.addBuffer w config feed
  | addBase feed => m.after (Store.addBase feed)
  | addScripted script inner => m.after (Store.addScripted script inner)
  | bindOuter slot outer => m.after (Store.bindOuter slot outer)
  | addStatistics => m.after newStatistics
  | addProviderId => m.after newProviderId
  | addManaged statistics hook inner => m.after (Store.addManaged statistics hook inner)
  | addJanitor statistics openCursors delegate =>
    m.after (Store.addJanitor statistics openCursors delegate)
  | addManager config => m.after (Store.addManager config)
  | manageProvider manager inner context => m.after (Manager.manageProvider manager inner context)
  | manage manager feed context => m.afterWith fun w => Manager.manage w manager feed context
  | complete manager context => m.afterWith fun w => Manager.complete w manager context
  | dispose manager => m.afterWith fun w => Manager.dispose w manager
  | openCursor p => m.afterWith fun w => p.openCursor w
  | close j => m.afterWith fun w => w.close j
  | release j => m.afterWith fun w => w.demand j
  | releaseCursor j c => m.afterWith fun w => j.releaseCursor w (c.release w)
  | endProvider p .close => m.afterWith fun w => p.close w none
  | endProvider p .release => m.afterWith fun w => p.release w none
  | pull feed => m.after (onFeeds (Feeds.draw feed))
  | hasNext feed offset =>
    m.after (onFeeds (Feeds.onBuffer feed (Buffer.hasNext (Feeds.tap Feeds.draw feed) offset)))
  | bucketFor feed offset =>
    m.after (onFeeds (Feeds.onBuffer feed (Buffer.bucketFor (Feeds.tap Feeds.draw feed) offset)))
  | cursorOp c t => m.after (t.perform c)
  | drop c => m.afterWith fun w => c.drop w
  | closeSource feed => m.afterWith fun w => Store.closeSource w feed
  | closeBuffer feed => m.afterWith fun w => Store.closeBuffer w feed
  | settle held => m.afterWith fun w => Store.settle w held

def run (m : Store α) (ops : List (StoreOp α)) : Store α := ops.foldl perform m

theorem run_append (m : Store α) (ops later : List (StoreOp α)) :
    run m (ops ++ later) = run (run m ops) later := List.foldl_append

end StoreOp

namespace Store

/-- Keeps the invariant of the janitors; things that can be ended may be added. -/
def Call.PreservesOrderly (n : Nat) (f : Call α β) : Prop :=
  ∀ m : Store α, m.endings ≤ n → m.Orderly → (f.run m).2.Orderly

namespace Call

variable {n : Nat}

theorem PreservesEndings.preservesOrderly {f : Call α β} (hf : f.PreservesEndings n) :
    f.PreservesOrderly n := fun m hn hm => (hf m hn hm).2

theorem PreservesEndings.bind_preservesOrderly {f : Call α β} {g : β → Call α γ} (hf : f.PreservesEndings n)
    (hg : ∀ r, (g r).PreservesOrderly n) : (f >>= g).PreservesOrderly n := by
  intro m hn hm
  obtain ⟨hn', hm'⟩ := hf m hn hm
  exact hg _ _ hn' hm'

theorem PreservesOrderly.bind {f : Call α β} {g : β → Call α γ} (hf : f.PreservesOrderly n)
    (hg : ∀ r k, (g r).PreservesOrderly k) : (f >>= g).PreservesOrderly n :=
  fun m hn hm => hg _ _ _ le_rfl (hf m hn hm)

theorem preservesOrderly_of_janitors {f : Call α β} (hf : ∀ m, (f.run m).2.janitors = m.janitors) :
    f.PreservesOrderly n := fun m _ hm => hm.of_janitors (hf m)

theorem preservesOrderly_withSwitches {f : Switches α → Call α β}
    (hf : ∀ n w, w.Suffice n → (f w).PreservesOrderly n) : (withSwitches f).PreservesOrderly n :=
  fun m _ hm => hf _ _ (suffice_switches m.endings) m le_rfl hm

end Call

variable {n : Nat}

theorem orderly_push {m : Store α} (hm : m.Orderly) (openCursors : Nat) :
    Orderly { m with janitors := m.janitors.push { openCursors } } := by
  intro slot hlt
  rw [Array.size_push] at hlt
  simp only [janitor, Array.getD_eq_getD_getElem?, Array.getElem?_push]
  split
  · exact JanitorState.orderly_new openCursors
  · rename_i hne
    rw [← Array.getD_eq_getD_getElem?]
    exact hm slot (by omega)

theorem preservesOrderly_addManaged (statistics : Nat) (hook : Hook) (inner : Provider) :
    (addManaged (α := α) statistics hook inner).PreservesOrderly n :=
  .bind (ends_onStatistics _ _).keeps.preservesOrderly fun _ _ _ _ hm => orderly_push hm 0

theorem preservesOrderly_addJanitor (statistics openCursors : Nat) (delegate : Provider) :
    (addJanitor (α := α) statistics openCursors delegate).PreservesOrderly n :=
  fun _ _ hm => orderly_push hm openCursors

theorem preservesOrderly_manageProvider (manager : Nat) (inner : Provider) (context : String) :
    (Manager.manageProvider (α := α) manager inner context).PreservesOrderly n := by
  refine .bind Call.Ends.get.keeps.preservesOrderly fun m k => ?_
  split
  · exact (Call.keeps_pure _).preservesOrderly
  · refine .bind (preservesOrderly_addManaged _ _ _) fun p k => ?_
    refine .bind (ends_note _).keeps.preservesOrderly fun _ k => ?_
    refine .bind Call.Ends.get.keeps.preservesOrderly fun m k => ?_
    exact .bind (Call.preservesOrderly_of_janitors fun _ => rfl) fun _ k =>
      (Call.keeps_pure _).preservesOrderly

theorem ends_addBase (feed : Nat) : (addBase (α := α) feed).Ends n :=
  .bind ends_newProviderId fun _ _ _ => .of_janitors rfl (.refl _)

theorem ends_retire (r : Reach) : (retire (α := α) r).Ends n := by
  intro m _
  refine ⟨Array.size_mapIdx, fun slot => ?_, .refl _⟩
  simp only [retire, Call.run_modify, janitor, Array.getD_eq_getD_getElem?, Array.getElem?_mapIdx]
  cases m.janitors[slot]? with
  | none => exact .refl _
  | some t => exact .retired t _

end Store

variable {w : Switches α} {n : Nat}

namespace Switches.Suffice

theorem addBuffer (hw : w.Suffice n) (config : Config) (feed : Nat) :
    (Store.addBuffer w config feed).PreservesEndings n := by
  refine .bind Call.Ends.get.keeps fun m => ?_
  dsimp only
  split
  · exact .bind (hw.dropSource feed).keeps fun _ => Call.keeps_pure _
  · exact .bind (.of_janitors (fun _ => rfl) fun _ => Feeds.size_setBuffer ..) fun _ =>
      Call.keeps_pure _

theorem manage (hw : w.Suffice n) (manager feed : Nat) (context : String) :
    (Manager.manage w manager feed context).PreservesOrderly n := by
  refine Call.Ends.get.keeps.bind_preservesOrderly fun m => ?_
  split
  · exact (Call.keeps_pure _).preservesOrderly
  · refine (hw.addBuffer _ feed).bind_preservesOrderly fun r => ?_
    split
    · exact (Call.keeps_pure _).preservesOrderly
    · refine (ends_addBase feed).keeps.bind_preservesOrderly fun base => ?_
      refine .bind (preservesOrderly_manageProvider manager base context) fun _ _ => ?_
      exact (Call.keeps_pure _).preservesOrderly

theorem releaseAll (hw : w.Suffice n) (ps : List Provider) (report : Report) :
    (Manager.releaseAll w ps report).Ends n := by
  induction ps generalizing report with
  | nil => exact .pure _
  | cons p ps ih =>
    unfold Manager.releaseAll
    split
    · exact .bind (hw.demand _) fun _ => ih _
    · exact .bind (.pure _) fun _ => ih _

theorem complete (hw : w.Suffice n) (manager : Nat) (context : String) :
    (Manager.complete w manager context).Ends n := by
  refine .bind .get fun m => ?_
  split
  · exact .pure _
  · split
    · exact .pure _
    · refine .bind (.modifying (fun _ => rfl) fun _ => .refl _) fun _ => ?_
      refine .bind (hw.releaseAll _ _) fun _ => ?_
      refine .bind (ends_note _) fun _ => ?_
      exact .pure _

theorem completeAll (hw : w.Suffice n) (manager : Nat) (contexts : List String) (report : Report) :
    (Manager.completeAll w manager contexts report).Ends n := by
  induction contexts generalizing report with
  | nil => exact .pure _
  | cons context contexts ih => exact .bind (hw.complete manager context) fun _ => ih _

theorem dispose (hw : w.Suffice n) (manager : Nat) : (Manager.dispose w manager).Ends n := by
  refine .bind .get fun m => ?_
  split
  · exact .pure _
  · exact hw.completeAll _ _ _

theorem dropUnreached (hw : w.Suffice n) (r : Reach) (feed : Nat) :
    (Store.dropUnreached w r feed).Ends n := by
  induction feed with
  | zero => exact .pure _
  | succ feed ih =>
    unfold Store.dropUnreached
    dsimp only
    split
    · exact .bind (hw.dropSource feed) fun _ => ih
    · exact ih

theorem settle (hw : w.Suffice n) (held : Reach) : (Store.settle w held).Ends n := by
  refine .bind .get fun _ => ?_
  refine .bind (hw.dropUnreached _ _) fun _ => ?_
  exact ends_retire _

end Switches.Suffice

theorem CursorOp.preservesOrderly_perform (c : Cursor) (t : CursorOp) :
    (t.perform (α := α) c).PreservesOrderly n := by
  cases t with
  | seek position =>
    simp only [CursorOp.perform]
    cases c.seek position with
    | ok d => exact (Call.keeps_pure _).preservesOrderly
    | error e => exact (Call.keeps_pure _).preservesOrderly
  | release =>
    exact .bind (Call.preservesOrderly_withSwitches fun _ _ hw => (hw.releaseLayers c).keeps.preservesOrderly)
      fun _ _ => (Call.keeps_pure _).preservesOrderly
  | close =>
    exact .bind (Call.preservesOrderly_withSwitches fun _ _ hw => (hw.closeLayers c).keeps.preservesOrderly)
      fun _ _ => (Call.keeps_pure _).preservesOrderly
  | hasNext => exact Call.preservesOrderly_of_janitors fun _ => rfl
  | next => exact Call.preservesOrderly_of_janitors fun _ => rfl
  | read room => exact Call.preservesOrderly_of_janitors fun _ => rfl
  | items count => exact Call.preservesOrderly_of_janitors fun _ => rfl
  | drain most => exact Call.preservesOrderly_of_janitors fun _ => rfl

namespace Store

variable {m : Store α}

theorem Orderly.after (hm : m.Orderly) {f : Call α β} (hf : f.PreservesOrderly m.endings) :
    (m.after f).Orderly := hf m le_rfl hm

theorem Orderly.afterWith (hm : m.Orderly) {f : Switches α → Call α β}
    (hf : ∀ n w, w.Suffice n → (f w).PreservesOrderly n) : (m.afterWith f).Orderly :=
  hm.after (Call.preservesOrderly_withSwitches hf)

theorem Orderly.afterEnding (hm : m.Orderly) {f : Switches α → Call α β}
    (hf : ∀ n w, w.Suffice n → (f w).Ends n) : (m.afterWith f).Orderly :=
  hm.afterWith fun n w hw => (hf n w hw).keeps.preservesOrderly

end Store

namespace StoreOp

theorem orderly_perform {m : Store α} (hm : m.Orderly) (d : StoreOp α) : (d.perform m).Orderly := by
  cases d with
  | addSource source => exact hm.after (Call.preservesOrderly_of_janitors fun _ => rfl)
  | addBuffer config feed => exact hm.afterWith fun _ _ hw => (hw.addBuffer config feed).preservesOrderly
  | addBase feed => exact hm.after (ends_addBase feed).keeps.preservesOrderly
  | addScripted script inner => exact hm.after (Call.preservesOrderly_of_janitors fun _ => rfl)
  | bindOuter slot outer => exact hm.after (ends_onScript slot _).keeps.preservesOrderly
  | addStatistics => exact hm.after (Call.preservesOrderly_of_janitors fun _ => rfl)
  | addProviderId => exact hm.after (Call.preservesOrderly_of_janitors fun _ => rfl)
  | addManaged statistics hook inner => exact hm.after (preservesOrderly_addManaged statistics hook inner)
  | addJanitor statistics openCursors delegate =>
    exact hm.after (preservesOrderly_addJanitor statistics openCursors delegate)
  | addManager config => exact hm.after (Call.preservesOrderly_of_janitors (janitors_addManager config))
  | manageProvider manager inner context =>
    exact hm.after (preservesOrderly_manageProvider manager inner context)
  | manage manager feed context => exact hm.afterWith fun _ _ hw => hw.manage manager feed context
  | complete manager context => exact hm.afterEnding fun _ _ hw => hw.complete manager context
  | dispose manager => exact hm.afterEnding fun _ _ hw => hw.dispose manager
  | openCursor p => exact hm.afterWith fun _ _ hw => (hw.openCursor p).preservesOrderly
  | close j => exact hm.afterEnding fun _ _ hw => hw.close j
  | release j => exact hm.afterEnding fun _ _ hw => hw.demand j
  | releaseCursor j c =>
    exact hm.afterEnding fun _ _ hw => (hw.releaseCursor j (hw.releaseLayers c)).ends
  | endProvider p ending =>
    cases ending with
    | close => exact hm.afterEnding fun _ _ hw => hw.closeProvider p
    | release => exact hm.afterEnding fun _ _ hw => hw.releaseProvider p
  | pull feed => exact hm.after (Call.preservesOrderly_of_janitors fun _ => rfl)
  | hasNext feed offset => exact hm.after (Call.preservesOrderly_of_janitors fun _ => rfl)
  | bucketFor feed offset => exact hm.after (Call.preservesOrderly_of_janitors fun _ => rfl)
  | cursorOp c t => exact hm.after (t.preservesOrderly_perform c)
  | drop c => exact hm.afterEnding fun _ _ hw => hw.dropCursor c
  | closeSource feed => exact hm.afterEnding fun _ _ hw => hw.closeSource feed
  | closeBuffer feed =>
    exact hm.afterEnding fun _ _ hw m hn => hw.closeOpenBuffer feed m (Nat.le_succ_of_le hn)
  | settle held => exact hm.afterEnding fun _ _ hw => hw.settle held

theorem orderly_run (ops : List (StoreOp α)) {m : Store α} (hm : m.Orderly) :
    (run m ops).Orderly := by
  induction ops generalizing m with
  | nil => exact hm
  | cons d ds ih => exact ih (orderly_perform hm d)

end StoreOp

/-- `close` and `release_resources` of a janitor, the first time and repeated. The first call reaches
the delegate; a repeated one only counts a demand. -/
structure Store.EndsOnce (m : Store α) (j : Janitor) : Prop where
  close : ((m.afterWith fun w => w.close j).janitor j.slot).closed
  release : ((m.afterWith fun w => w.demand j).janitor j.slot).released
  delegate_closed : (m.janitor j.slot).closed = false →
    j.delegate.Called m (m.afterWith fun w => w.close j) .close
  delegate_released : (m.janitor j.slot).released = false →
    j.delegate.Called m (m.afterWith fun w => w.demand j) .release
  performed_close : (m.janitor j.slot).closed = false →
    ((withSwitches fun w => w.close j).run m).1.performed
  performed_release : (m.janitor j.slot).released = false →
    ((withSwitches fun w => w.demand j).run m).1.performed
  close_again : (m.janitor j.slot).closed →
    (withSwitches fun w => w.close j).run m = (.skipped, m)
  release_again : (m.janitor j.slot).released → (withSwitches fun w => w.demand j).run m =
    (.skipped, m.change j.slot fun t => { t with demands := t.demands + 1 })

theorem Store.endsOnce (m : Store α) (j : Janitor) : m.EndsOnce j where
  close := (suffice_switches m.endings).closed j m m.pending_le_endings
  release := ((suffice_switches m.endings).demanded j m.pending_le_endings).2
  delegate_closed := by
    intro h
    obtain ⟨n, hn⟩ := endings_pos (lt_of_closed_eq_false h)
    rw [afterWith_eq, hn]
    exact j.called_of_close (suffice_switches n) (within_persists n) (hn ▸ m.pending_le_endings) h
  delegate_released := by
    intro h
    obtain ⟨n, hn⟩ := endings_pos (lt_of_released_eq_false h)
    have hdemanded : m.FlagsMono (m.change j.slot fun t => { t with demands := t.demands + 1 }) :=
      .of_change (fun _ => id) fun _ => id
    rw [afterWith_eq, hn, Switches.demand, Call.run_bind, run_onJanitor]
    refine .after (.change hdemanded) ?_
    refine j.called_of_release (suffice_switches n) (within_persists n) ?_
      ((released_demanded m j.slot).trans h)
    exact hn ▸ hdemanded.pending_le.trans m.pending_le_endings
  performed_close := by
    intro h
    obtain ⟨n, hn⟩ := endings_pos (lt_of_closed_eq_false h)
    simp only [withSwitches, Call.run_bind, Call.run_get, hn]
    exact Janitor.performed_close h
  performed_release := by
    intro h
    obtain ⟨n, hn⟩ := endings_pos (lt_of_released_eq_false h)
    simp only [withSwitches, Call.run_bind, Call.run_get, hn]
    exact Janitor.performed_release ((released_demanded m j.slot).trans h)
  close_again := run_close_switches _
  release_again := run_demand_switches _

/-- Teardown happens exactly once. After every run each janitor has called close and release_resources
of its delegate once or not at all, as its flags say, and a further call changes nothing and reports
that nothing was performed. -/
theorem StoreOp.torn_down_once (ops : List (StoreOp α)) :
    (∀ slot < (run {} ops).janitors.size, ((run {} ops).janitor slot).Orderly) ∧
      ∀ j, (run {} ops).EndsOnce j :=
  ⟨orderly_run ops fun _ hlt => absurd hlt (Nat.not_lt_zero _), (run {} ops).endsOnce⟩

example :
    let j : Janitor := ⟨0, 0, .base 0 ⟨1⟩ 0⟩
    let closed : Store Nat := StoreOp.run {} [.addJanitor 0 2 j.delegate, .close j]
    let left (count : Nat) : Store Nat :=
      StoreOp.run closed (List.replicate count (.releaseCursor j (.plain 0 ⟨1⟩ {})))
    [0, 1, 2].map (fun count => ((left count).janitor 0).releasings) = [0, 0, 1] := by
  decide

end Replay
