import Replay.Proofs.Managing.Completing
import Replay.Proofs.Managing.Reclaiming
import Replay.Proofs.World.ReentrantOps

/-!
Completing a context releases what is listed under it and affects nothing else. The context can be used
again: providers created afterwards start a new list, which only a later completion of this context
releases.
-/
namespace Replay

open Store

variable {α : Type}

namespace Store

/-- The provider starts the list of its context; completing contexts later affects it accordingly. -/
structure FreshList (m : Store α) (manager : Nat) (context : String) (q : Nat) (m' : Store α) : Prop where
  listed : ∃ inner, m'.lists manager context = some [.managed m.janitors.size q .plain inner]
  unended : m'.janitor m.janitors.size = {}
  others : ∀ i c, (i, c) ≠ (manager, context) → m'.lists i c = m.lists i c
  spared : ∀ later i c, (i, c) ≠ (manager, context) →
    (StoreOp.run m' later).IsolatedAll ((StoreOp.run m' later).listed i c) →
      (((StoreOp.run m' later).afterWith fun w => Manager.complete w i c).janitor m.janitors.size).account =
        ((StoreOp.run m' later).janitor m.janitors.size).account
  reclaimed : ∀ later,
    (((StoreOp.run m' later).afterWith fun w => Manager.complete w manager context).janitor
      m.janitors.size).closed ∧
    (((StoreOp.run m' later).afterWith fun w => Manager.complete w manager context).janitor
      m.janitors.size).released

/-- Every provider created under the context starts a new list. -/
structure Reopens (m : Store α) (manager : Nat) (context : String) (q : Nat) : Prop where
  provider : ∀ inner,
    m.FreshList manager context q (StoreOp.perform m (.manageProvider manager inner context))
  source : ∀ feed, m.FreshList manager context q (StoreOp.perform m (.manage manager feed context))

variable {m m' : Store α} {manager slot i : Nat} {context c : String} {t : ManagerState} {inner : Provider}

theorem Listing.lt_of_names (hm : m.Listing) (h : m.Names i c slot) : slot < m.janitors.size := by
  obtain ⟨p, hp, hslot⟩ := h
  cases ht : m.manager? i with
  | none =>
    rw [listed_of_none ht] at hp
    cases hp
  | some t =>
    obtain ⟨slot', inner, rfl, hlt⟩ := (hm i t ht).managed c p (listed_of_manager ht c ▸ hp)
    cases hslot
    exact hlt

theorem Manages.freshList (h : m.Manages manager t context inner m') (ht : m.manager? manager = some t)
    (hm : m.Listing) (horder : m'.Orderly) (hnone : m.lists manager context = none) :
    m.FreshList manager context t.statistics m' := by
  obtain ⟨hlisted, hothers⟩ := h.reopens ht hnone
  have hsize : m'.janitors.size = m.janitors.size + 1 := h.janitors ▸ Array.size_push ..
  have hslot : m.janitors.size < m'.janitors.size := hsize ▸ Nat.lt_succ_self _
  refine ⟨⟨inner, hlisted⟩, ?_, hothers, fun later i c hne hisolated => ?_, fun later => ?_⟩
  · rw [janitor, h.janitors, Array.getD_eq_getD_getElem?, Array.getElem?_push, if_pos rfl]
    rfl
  · have hunnamed : ¬(StoreOp.run m' later).Names i c m.janitors.size := by
      intro hnames
      have hbefore := (StoreOp.listsExtend_run m' later).names i c _ hslot hnames
      rw [Names, listed, hothers i c hne] at hbefore
      exact Nat.lt_irrefl _ (hm.lt_of_names hbefore)
    rw [afterWith_eq]
    cases ht' : (StoreOp.run m' later).manager? i with
    | none =>
      have huntracked : (StoreOp.run m' later).lists i c = none := by
        rw [lists, ht']
        rfl
      rw [run_complete_unlisted huntracked]
    | some t' =>
      have hlisting := (StoreOp.listsExtend_run m' later).listing (h.listing ht hm)
      exact (completes (StoreOp.orderly_run later horder) hlisting ht' hisolated).apart _ hunnamed
  · have hrun : StoreOp.run m' (later ++ [.complete manager context]) =
        (StoreOp.run m' later).afterWith fun w => Manager.complete w manager context := by
      rw [StoreOp.run_append]
      rfl
    have hnames : m'.Names manager context m.janitors.size := by
      refine ⟨m.newManaged t inner, ?_, rfl⟩
      rw [listed, hlisted]
      exact List.mem_singleton_self _
    have hreclaims := StoreOp.reclaims_run m' (later ++ [.complete manager context])
    have horder' := StoreOp.orderly_run (later ++ [.complete manager context]) horder _
      (hslot.trans_le hreclaims.size)
    have hended := hreclaims.names manager context _ hslot hnames
    rw [hrun] at hended horder'
    have hreleased := hended.resolve_left fun hstill => by
      obtain ⟨p, hp, -⟩ := hstill
      rw [afterWith_eq, listed, lists_complete, if_pos rfl] at hp
      cases hp
    exact ⟨horder'.closed hreleased, hreleased⟩

theorem reopens (hm : m.Listing) (horder : m.Orderly) (ht : m.manager? manager = some t)
    (hnone : m.lists manager context = none) : m.Reopens manager context t.statistics where
  provider inner :=
    (manages_manageProvider ht inner context).freshList ht hm
      (StoreOp.orderly_perform horder (.manageProvider manager inner context)) hnone
  source feed := by
    have horder' := StoreOp.orderly_perform horder (.manage manager feed context)
    rw [StoreOp.perform, afterWith_eq] at horder' ⊢
    obtain ⟨inner, hmanages⟩ := manages_manage ht (hm manager t ht).config (switches m.endings) feed context
    exact hmanages.freshList ht hm horder' hnone

/-- Completing a context in any reachable store releases the providers listed under it and affects no
other, if these are isolated, and reduces the statistics by exactly what they count; in the stores of
worlds no counter is clipped. Later, while the context is not tracked, it can be opened again. -/
theorem completion_touches_its_own {m : Store α} (hm : ∃ ops, StoreOp.run {} ops = m) {manager : Nat}
    {t : ManagerState} (ht : m.manager? manager = some t) (context : String)
    (hisolated : m.IsolatedAll (m.listed manager context)) :
    let done := (withSwitches fun w => Manager.complete w manager context).run m
    m.Completes manager context t.statistics done.1 done.2 ∧
      (∀ vs : List (ReentrantOp α), (({} : World α).runReentrant vs).store = m →
        (done.2.statisticsAt t.statistics).clipped = false) ∧
      ∀ later, (StoreOp.run done.2 later).lists manager context = none →
        (StoreOp.run done.2 later).Reopens manager context t.statistics := by
  intro done
  obtain ⟨ops, hops⟩ := hm
  have horder : m.Orderly := hops ▸ StoreOp.orderly_run ops fun _ hlt => absurd hlt (Nat.not_lt_zero _)
  have hlisting : m.Listing := hops ▸ StoreOp.listing_run ops
  have hlists : m.ListsExtend done.2 := StoreOp.listsExtend_perform m (.complete manager context)
  have hdone : done.2.Orderly := StoreOp.orderly_perform horder (.complete manager context)
  refine ⟨completes horder hlisting ht hisolated, fun vs hvs => ?_, fun later hnone => ?_⟩
  · have hstore : (({} : World α).runReentrant (vs ++ [.client (.complete manager context)])).store =
      done.2 := by
      rw [World.runReentrant_append]
      exact congrArg (fun m => ((withSwitches fun w => Manager.complete w manager context).run m).2) hvs
    obtain ⟨r, hw⟩ :=
      World.Invariant.start.runReentrant (vs ++ [ReentrantOp.client (α := α) (.complete manager context)])
    obtain ⟨t', ht', hstatistics⟩ := hlists.manager manager t ht
    have hlt := (hlists.listing hlisting manager t' ht').statistics
    rw [hstatistics, ← hstore] at hlt
    rw [← hstore]
    exact hw.accounted.exact _ hlt
  · have hall := hlists.trans (StoreOp.listsExtend_run done.2 later)
    obtain ⟨t', ht', hstatistics⟩ := hall.manager manager t ht
    rw [← hstatistics]
    exact reopens (hall.listing hlisting) (StoreOp.orderly_run later hdone) ht' hnone

/-- Two contexts. One lists an untouched provider, one closed with an open cursor, one released, and one
with two cursors. -/
def mixedManager : World Nat :=
  ({} : World Nat).runReentrant <| [.addManager ⟨2, 2, .unbounded, .owned⟩,
    .manage 0 "job" (.ready (.bare #[10]) rfl), .manage 0 "job" (.ready (.bare #[10]) rfl),
    .manage 0 "job" (.ready (.bare #[10]) rfl), .manage 0 "job" (.ready (.bare #[10]) rfl),
    .manage 0 "other" (.ready (.bare #[10]) rfl),
    .openCursor 1, .close 1, .release 2, .openCursor 3, .openCursor 3, .openCursor 4].map .client

theorem mixedManager_completed : ∃ t, mixedManager.store.manager? 0 = some t ∧ t.statistics = 0 ∧
    mixedManager.store.IsolatedAll (mixedManager.store.listed 0 "job") ∧
      mixedManager.store.statisticsAt 0 = ⟨3, 4, false⟩ ∧
    (let done := (withSwitches fun w => Manager.complete w 0 "job").run mixedManager.store
     mixedManager.store.Completes 0 "job" 0 done.1 done.2 ∧ done.1.performed ∧
      done.2.statisticsAt 0 = ⟨1, 1, false⟩ ∧ done.2.Reopens 0 "job" 0) := by
  have hmanager : (mixedManager.store.manager? 0).map ManagerState.statistics = some 0 := by decide +kernel
  obtain ⟨t, ht, hstatistics⟩ := Option.map_eq_some_iff.mp hmanager
  have hisolated : mixedManager.store.IsolatedAll (mixedManager.store.listed 0 "job") :=
    isolatedAll_of_isBare (by decide +kernel)
  obtain ⟨hcompletes, -, hreopens⟩ :=
    completion_touches_its_own (World.storeOps_runReentrant {} _) ht "job" hisolated
  rw [hstatistics] at hcompletes hreopens
  exact ⟨t, ht, hstatistics, hisolated, by decide +kernel, hcompletes, by decide +kernel, by decide +kernel,
    hreopens [] hcompletes.untracked⟩

end Store

end Replay
