import Replay.Proofs.World.Registry

/-!
Managers as a backstop. Every provider that a manager has returned and that is not released is listed,
so disposing the manager, in any order of contexts, releases all of them and leaves its statistics at
zero. Dropping a guard completes its context.
-/
namespace Replay

open Store

variable {α : Type} {r : Roster}

namespace World

variable {w : World α} {manager : Nat} {t : ManagerState}

/-- No context is left, and every provider the manager has returned is closed and released. -/
structure Disposed (w : World α) (manager : Nat) : Prop where
  contexts : ∀ t, w.store.manager? manager = some t → t.contexts = []
  ended : ∀ g ∈ w.registrations, g.manager = manager → ∀ j, g.provider.janitor? = some j →
    (w.store.janitor j.slot).closed ∧ (w.store.janitor j.slot).released

/-- Only this manager's providers use the statistics. -/
def Own (w : World α) (manager q : Nat) : Prop :=
  ∀ j ∈ w.sharing q, ∃ g ∈ w.registrations, g.manager = manager ∧ g.provider.janitor? = some j

structure Backstop (w : World α) (manager : Nat) (t : ManagerState) : Prop where
  contextsDistinct : t.ContextsDistinct
  backed : ∀ g ∈ w.registrations, g.manager = manager →
    ∃ j, g.provider.janitor? = some j ∧ w.store.Backs t j.slot g.context
  disposed : ∀ order : List String, order.Perm (t.contexts.map Prod.fst) →
    (w.perform (.dispose manager order)).Disposed manager
  emptied : ∀ order : List String, order.Perm (t.contexts.map Prod.fst) → w.Own manager t.statistics →
    ∀ later : List (ClientOp α), (∀ op ∈ later, ¬op.Makes) →
      ((w.perform (.dispose manager order)).run later).store.statisticsAt t.statistics = {}

theorem Registry.disposed (hw : w.Invariant r 0) (horder : w.store.Orderly)
    (hg : Registry w.registrations w.store) (ht : w.store.manager? manager = some t)
    {order : List String} (hperm : order.Perm (t.contexts.map Prod.fst)) :
    (w.perform (.dispose manager order)).Disposed manager := by
  have hafter := manager?_completeAll (hw.switches_countsExact w.store.endings) hw.store order .skipped ht
  have hnone : t.contexts.filter (fun entry => entry.1 ∉ order) = [] := by
    refine List.filter_eq_nil_iff.mpr fun entry hentry => ?_
    rw [decide_eq_true_eq, not_not]
    exact hperm.mem_iff.mpr (List.mem_map_of_mem hentry)
  rw [hnone] at hafter
  refine ⟨fun t' ht' => ?_, fun g hmem hmanager j hj => ?_⟩
  · cases hafter.symm.trans ht'
    rfl
  · obtain ⟨t', j', ht', hj', hlt, hbacks⟩ := registry_perform hw hg (.dispose manager order) g hmem
    cases hj.symm.trans hj'
    rw [hmanager] at ht'
    cases hafter.symm.trans ht'
    have hreleased : ((w.perform (.dispose manager order)).store.janitor j.slot).released :=
      hbacks.kept.resolve_right Nat.zero_ne_one
    have horderly := orderly_run horder [.dispose manager order] j.slot hlt
    exact ⟨horderly.closed hreleased, hreleased⟩

theorem Accounted.empty {q : Nat} (hw : w.Accounted) (h : ∀ j ∈ w.sharing q,
    (w.store.janitor j.slot).closed ∧ (w.store.janitor j.slot).released) :
    w.store.statisticsAt q = {} := by
  by_cases hq : q < w.store.statistics.size
  · have hproviders : (w.store.statisticsAt q).providers = 0 := by
      rw [hw.providers q hq, List.length_eq_zero_iff, List.filter_eq_nil_iff]
      exact fun j hj => by simp [(h j hj).1]
    have hcursors : (w.store.statisticsAt q).cursors = 0 := by
      have hnone : (w.sharing q).filter (fun j => !(w.store.janitor j.slot).released) = [] :=
        List.filter_eq_nil_iff.mpr fun j hj => by simp [(h j hj).2]
      rw [hw.cursors q hq, hnone]
      rfl
    have hexact := hw.exact q hq
    rcases hs : w.store.statisticsAt q with ⟨providers, cursors, clipped⟩
    rw [hs] at hproviders hcursors hexact
    dsimp only at hproviders hcursors hexact
    rw [hproviders, hcursors, hexact]
  · rw [statisticsAt, Array.getD_eq_getD_getElem?, Array.getElem?_eq_none (Nat.le_of_not_lt hq)]
    rfl

theorem backstop {ops : List (ClientOp α)} (hw : ({} : World α).run ops = w)
    (ht : w.store.manager? manager = some t) : w.Backstop manager t := by
  obtain ⟨r, hkept⟩ := (Invariant.start (α := α)).run ops
  have hg := registry_run (Invariant.start (α := α)) nofun ops
  have horder := orderly_run (w := ({} : World α)) (fun _ hlt => absurd hlt (Nat.not_lt_zero _)) ops
  rw [hw] at hkept hg horder
  refine ⟨(hkept.store.managers manager t ht).contextsDistinct, fun g hmem hmanager => ?_,
    fun order hperm => Registry.disposed hkept horder hg ht hperm,
    fun order hperm hown later hlater => ?_⟩
  · obtain ⟨t', j, ht', hj, -, hbacks⟩ := hg g hmem
    rw [hmanager] at ht'
    cases ht.symm.trans ht'
    exact ⟨j, hj, hbacks⟩
  · have hdisposed := Registry.disposed hkept horder hg ht hperm
    obtain ⟨r', hdone⟩ := hkept.perform (.dispose manager order)
    obtain ⟨r'', hfinal⟩ := hdone.run later
    have hpersist := (w.perform (.dispose manager order)).flagsPersist_run later
    have hproviders : ((w.perform (.dispose manager order)).run later).providers = w.providers :=
      providers_run hlater
    refine hfinal.accounted.empty fun j hj => ?_
    rw [sharing, janitors, hproviders] at hj
    obtain ⟨g, hmem, hmanager, hj'⟩ := hown j hj
    obtain ⟨hclosed, hreleased⟩ := hdisposed.ended g hmem hmanager j hj'
    obtain ⟨-, j', -, hj'', hlt, -⟩ := registry_perform hkept hg (.dispose manager order) g hmem
    cases hj'.symm.trans hj''
    exact ⟨hpersist.closed j.slot hlt hclosed, hpersist.released j.slot hlt hreleased⟩

/-- A manager with two contexts, one of which has an unreleased cursor. -/
theorem backstop_two : ∃ w t, ({} : World Nat).run [.addManager ⟨2, 2, .unbounded, .owned⟩,
      .manage 0 "a" (.ready (.bare #[1, 2]) rfl), .openCursor 0,
      .manage 0 "b" (.ready (.bare #[3]) rfl)] = w ∧
    w.store.manager? 0 = some t ∧ t.contexts.map Prod.fst = ["a", "b"] ∧
    (w.store.statisticsAt t.statistics).cursors = 1 ∧ w.Backstop 0 t :=
  ⟨_, _, rfl, rfl, rfl, rfl, backstop rfl rfl⟩

end World
end Replay
