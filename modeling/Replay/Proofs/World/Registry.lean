import Replay.Proofs.World.Accounts
import Replay.Proofs.World.StoreOps

/-!
What managers list: every provider that a manager has returned is listed under its own context, once,
unless it is released. A provider leaves the list when another one is registered after its release, or
when its context is completed, which releases it.
-/
namespace Replay

open Store

variable {α β : Type} {r : Roster} {h : Nat → Nat} {m m' : Store α} {n : Nat}

theorem Provider.Under.slot_lt {p : Provider} {slot : Nat} (h : p.Under r n)
    (hp : p.slot? = some slot) : slot < n := by
  cases p with
  | managed slot' statistics hook inner =>
    cases hp
    exact h.1
  | base slot' id feed => cases hp
  | scripted slot' script inner => cases hp

namespace Store

/-- The provider at `slot` is listed once, and under `context` only, or not at all if it is released. -/
structure Backs (m : Store α) (t : ManagerState) (slot : Nat) (context : String) : Prop where
  once : ∀ c, t.listed slot c ≤ if c = context then 1 else 0
  kept : (m.janitor slot).released ∨ t.listed slot context = 1

def Registry (gs : List Registration) (m : Store α) : Prop :=
  ∀ g ∈ gs, ∃ t j, m.manager? g.manager = some t ∧ g.provider.janitor? = some j ∧
    j.slot < m.janitors.size ∧ m.Backs t j.slot g.context

variable {t t' : ManagerState} {slot : Nat} {context : String} {gs : List Registration}

theorem Backs.step (hb : m.Backs t slot context) (hlt : slot < m.janitors.size) (hm : m.FlagsPersist m')
    (hle : ∀ c, t'.listed slot c ≤ t.listed slot c)
    (hkept : (m'.janitor slot).released ∨ t'.listed slot context = t.listed slot context) :
    m'.Backs t' slot context where
  once c := (hle c).trans (hb.once c)
  kept := by
    rcases hb.kept with hreleased | hlisted
    · exact .inl (hm.released slot hlt hreleased)
    · exact hkept.imp_right fun hsame => hsame.trans hlisted

namespace Registry

theorem modify {i : Nat} {f : ManagerState → ManagerState} (hg : Registry gs m) (hm : m.FlagsPersist m')
    (hmanagers : m'.managers = m.managers.modify i f)
    (hf : ∀ t slot context, m.manager? i = some t → slot < m.janitors.size →
      m.Backs t slot context → m'.Backs (f t) slot context) : Registry gs m' := by
  intro g hmem
  obtain ⟨t, j, ht, hj, hlt, hbacks⟩ := hg g hmem
  have hmanager : m'.manager? g.manager = if i = g.manager then (m.manager? g.manager).map f
      else m.manager? g.manager := by
    rw [manager?, hmanagers, Array.getElem?_modify]
    rfl
  by_cases hi : i = g.manager
  · subst hi
    rw [if_pos rfl, ht] at hmanager
    exact ⟨f t, j, hmanager, hj, hlt.trans_le hm.size, hf t j.slot g.context ht hlt hbacks⟩
  · rw [if_neg hi, ht] at hmanager
    exact ⟨t, j, hmanager, hj, hlt.trans_le hm.size,
      hbacks.step hlt hm (fun _ => le_rfl) (.inr rfl)⟩

theorem of_managers (hg : Registry gs m) (hm : m.FlagsPersist m')
    (hmanagers : ∀ i t, m.manager? i = some t → m'.manager? i = some t) : Registry gs m' := by
  intro g hmem
  obtain ⟨t, j, ht, hj, hlt, hbacks⟩ := hg g hmem
  exact ⟨t, j, hmanagers _ _ ht, hj, hlt.trans_le hm.size,
    hbacks.step hlt hm (fun _ => le_rfl) (.inr rfl)⟩

theorem of_same (hg : Registry gs m) (hm : m.FlagsPersist m') (hmanagers : m'.managers = m.managers) :
    Registry gs m' :=
  hg.of_managers hm fun i _ ht => (congrArg (·[i]?) hmanagers).trans ht

theorem addManager (hg : Registry gs m) (config : Config) :
    Registry gs ((Store.addManager config).run m).2 :=
  hg.of_managers (keepsOrderly_addManager config m).1 fun _ _ ht => manager?_addManager ht config

theorem register {i : Nat} {released : Provider → Bool} {context : String} {p : Provider}
    {j : Janitor} (hg : Registry gs m) (hm : m.FlagsPersist m') (ht : m.manager? i = some t)
    (hmanagers : m'.managers = m.managers.modify i (·.register released context p))
    (hp : p.janitor? = some j) (hslot : j.slot = m.janitors.size)
    (hsize : m.janitors.size < m'.janitors.size) (hnew : ∀ c, t.listed j.slot c = 0)
    (hreleased : ∀ q : Provider, ∀ slot, q.slot? = some slot →
      released q = (m'.janitor slot).released) :
    Registry (gs ++ [⟨i, context, p⟩]) m' := by
  have hslot? : p.slot? = some j.slot := by rw [Provider.slot?, hp, Option.map_some]
  intro g hmem
  rcases List.mem_append.mp hmem with hmem | hmem
  · refine hg.modify hm hmanagers (fun t slot context' ht hlt hbacks => ?_) g hmem
    have hother : p.slot? ≠ some slot := by
      rw [hslot?, hslot]
      exact fun h => Nat.ne_of_gt hlt (Option.some.inj h)
    refine hbacks.step hlt hm (fun c => ManagerState.listed_register_le hother) ?_
    cases hlive : (m'.janitor slot).released with
    | true => exact .inl rfl
    | false =>
      exact .inr (ManagerState.listed_register_of_live hother fun q hq =>
        (hreleased q slot hq).trans hlive)
  · cases List.mem_singleton.mp hmem
    have hlisted : ∀ c, (t.register released context p).listed j.slot c =
        if c = context then 1 else 0 := fun c => ManagerState.listed_register_self hslot? hnew
    refine ⟨t.register released context p, j, ?_, hp, hslot.trans_lt hsize, fun c => (hlisted c).le,
      .inr ?_⟩
    · have hmanager : (m.managers.modify i (·.register released context p))[i]? =
          some (t.register released context p) := by
        rw [Array.getElem?_modify, if_pos rfl]
        exact congrArg _ ht
      rw [manager?, hmanagers]
      exact hmanager
    · rw [hlisted, if_pos rfl]

theorem manageProvider (hg : Registry gs m) (hm : Invariant r h m) (i : Nat) (inner : Provider)
    (context : String) :
    Registry (gs ++ ((Manager.manageProvider i inner context).run m).1.toList.map (⟨i, context, ·⟩))
      ((Manager.manageProvider i inner context).run m).2 := by
  have hpersist := (keepsOrderly_manageProvider i inner context m).1
  cases ht : m.manager? i with
  | none =>
    rw [Manager.run_manageProvider_none ht]
    exact (List.append_nil gs).symm ▸ hg
  | some t =>
    rw [Manager.run_manageProvider ht] at hpersist ⊢
    refine hg.register (j := ⟨m.janitors.size, t.statistics, inner⟩) hpersist ht rfl rfl rfl ?_ ?_ ?_
    · exact (Nat.lt_succ_self _).trans_eq (Array.size_push ..).symm
    · intro c
      refine List.countP_eq_zero.mpr fun q hq => ?_
      obtain ⟨entry, hentry, hq⟩ := ManagerState.mem_of_mem_providersIn hq
      have hunder := (hm.managers i t ht).listed entry hentry q hq
      rw [decide_eq_true_eq]
      exact fun hslot => Nat.ne_of_lt (hunder.slot_lt hslot) hm.janitors.symm
    · exact fun q slot hq => Provider.isReleased_of_slot hq

end Registry
end Store

section completing

variable {w : Switches α} {slot manager : Nat} {context : String} {t : ManagerState}

theorem released_releaseAll (hw : w.Suffice n) (hn : m.pending ≤ n) {ps : List Provider}
    (report : Report) {p : Provider} (hp : p ∈ ps) (hslot : p.slot? = some slot) :
    (((Manager.releaseAll w ps report).run m).2.janitor slot).released := by
  induction ps generalizing m report with
  | nil => cases hp
  | cons q ps ih =>
    unfold Manager.releaseAll
    cases hj : q.janitor? with
    | none =>
      rcases List.mem_cons.mp hp with rfl | hp
      · rw [Provider.slot?, hj] at hslot
        cases hslot
      · exact ih hn _ hp
    | some j =>
      obtain ⟨hadvances, hreleased⟩ := hw.demanded j hn
      rcases List.mem_cons.mp hp with rfl | hp
      · rw [Provider.slot?, hj] at hslot
        cases hslot
        exact ((hw.releaseAll ps _ _ (hadvances.pending_le.trans hn)).janitor j.slot).released hreleased
      · exact ih (hadvances.pending_le.trans hn) _ hp

theorem released_complete (hw : w.Suffice n) (hn : m.pending ≤ n)
    (ht : m.manager? manager = some t) {p : Provider} (hp : p ∈ t.providersIn context)
    (hslot : p.slot? = some slot) :
    (((Manager.complete w manager context).run m).2.janitor slot).released := by
  rw [ManagerState.providersIn] at hp
  cases hps : t.contexts.lookup context with
  | none =>
    rw [hps] at hp
    cases hp
  | some ps =>
    rw [hps] at hp
    rw [Manager.run_complete_tracked ht hps]
    exact released_releaseAll (m := m.forgetting manager context) hw hn .skipped hp hslot

namespace Store.Registry

variable {gs : List Registration}

theorem complete (hg : Registry gs m) (hw : w.Suffice n) (hf : w.CountsExact r) (hm : Invariant r h m)
    (hn : m.endings ≤ n) (manager : Nat) (context : String) :
    Registry gs ((Manager.complete w manager context).run m).2 := by
  have hpersist := ((hw.complete manager context).addsBuffersOnly m hn).2
  refine hg.modify hpersist (hm.complete hf manager context).2
    fun t slot context' ht hlt hbacks => hbacks.step hlt hpersist (fun c => ?_) ?_
  · rw [ManagerState.listed_forget]
    split
    · exact Nat.zero_le _
    · exact le_rfl
  · rw [ManagerState.listed_forget]
    by_cases hcontext : context' = context
    · subst hcontext
      rcases hbacks.kept with hreleased | hlisted
      · exact .inl (hpersist.released slot hlt hreleased)
      · obtain ⟨p, hp, hslot⟩ := List.countP_pos_iff.mp (hlisted.symm ▸ Nat.one_pos)
        exact .inl (released_complete hw (m.pending_le_endings.trans hn) ht hp
          (of_decide_eq_true hslot))
    · exact .inr (if_neg hcontext)

theorem completeAll (hg : Registry gs m) (hw : w.Suffice n) (hf : w.CountsExact r) (hm : Invariant r h m)
    (hn : m.endings ≤ n) (manager : Nat) (contexts : List String) (report : Report) :
    Registry gs ((Manager.completeAll w manager contexts report).run m).2 := by
  induction contexts generalizing m report with
  | nil => exact hg
  | cons context contexts ih =>
    exact ih (hg.complete hw hf hm hn manager context) (hm.complete hf manager context).1
      ((hw.complete manager context).addsBuffersOnly m hn).1 _

end Store.Registry

theorem manager?_completeAll (hf : w.CountsExact r) (hm : Invariant r h m) (contexts : List String)
    (report : Report) (ht : m.manager? manager = some t) :
    ((Manager.completeAll w manager contexts report).run m).2.manager? manager =
      some { t with contexts := t.contexts.filter fun entry => entry.1 ∉ contexts } := by
  induction contexts generalizing m report t with
  | nil =>
    have hall : t.contexts.filter (fun entry => entry.1 ∉ ([] : List String)) = t.contexts :=
      List.filter_eq_self.mpr fun _ _ => rfl
    rw [hall]
    exact ht
  | cons context contexts ih =>
    obtain ⟨hkept, hmanagers⟩ := hm.complete hf manager context
    have ht' : ((Manager.complete w manager context).run m).2.manager? manager =
        some (t.forget context) := by
      rw [manager?, hmanagers, Array.getElem?_modify, if_pos rfl]
      exact congrArg _ ht
    refine (ih hkept _ ht').trans ?_
    rw [ManagerState.forget, List.filter_filter]
    congr 3
    funext entry
    simp [List.mem_cons, Bool.and_comm]

end completing

namespace World

variable {w : World α}

section registry

variable {k : Nat → Nat}

theorem Invariant.managers (hw : w.Invariant r k) {f : Call α β} {l : β → Nat → Nat} {P : β → Prop}
    (hf : f.Transfers r r.statistics.length k l P) : (f.run w.store).2.managers = w.store.managers :=
  (hf w.store hw.store.covers).1.managers

theorem registry_perform (hw : w.Invariant r 0) (hg : Registry w.registrations w.store) (op : ClientOp α) :
    Registry (w.perform op).registrations (w.perform op).store := by
  have hstore : Store.Invariant r w.held w.store := by
    have h := hw.store
    rwa [add_zero] at h
  have hpersist : w.store.FlagsPersist (w.perform op).store := w.flagsPersist_run [op]
  have hstep := w.step op
  generalize w.perform op = after at hpersist hstep ⊢
  cases hstep with
  | idle op => exact hg
  | addStatistics => exact hg.of_same hpersist rfl
  | addManager config => exact hg.addManager config
  | addBase config source w' hsource =>
    obtain ⟨hw', hunder, -⟩ := hw.source hsource
    obtain ⟨hsame, -, hregistrations⟩ := same_of_source? hsource
    obtain ⟨-, -, -, hmanagers⟩ := hw'.store.makeBase hunder config
    rw [← hregistrations] at hg
    exact hg.of_same hpersist (hmanagers.trans (congrArg Store.managers hsame))
  | addScripted script nonReentrant inner hinner => exact hg.of_same hpersist rfl
  | addManaged q inner hinner hq => exact hg.of_same hpersist rfl
  | openCursor p hp =>
    exact hg.of_same hpersist (hw.managers (.withSwitches fun left =>
      (hw.switches_countsExact left).openCursor (hw.providers p (List.mem_of_getElem? hp)) le_rfl
        (.inr le_rfl)))
  | cursorOp t c hc =>
    obtain ⟨hparted, hunder⟩ := hw.part hc
    exact hg.of_same hpersist (hparted.managers (t.transfers hstore.sorted hunder))
  | drop c hc =>
    obtain ⟨hparted, hunder⟩ := hw.part hc
    exact hg.of_same hpersist
      (hparted.managers (.withSwitches fun left => (hw.switches_countsExact left).dropCursor hunder))
  | close p hp =>
    exact hg.of_same hpersist (hw.managers ((Call.Neutral.withSwitches fun left =>
      (hw.switches_countsExact left).closeProvider (hw.providers p (List.mem_of_getElem? hp))).transfers 0))
  | release p hp =>
    exact hg.of_same hpersist (hw.managers ((Call.Neutral.withSwitches fun left =>
      (hw.switches_countsExact left).releaseProvider (hw.providers p (List.mem_of_getElem? hp))).transfers 0))
  | manage manager context t source w' ht hsource =>
    obtain ⟨hw', hunder, -⟩ := hw.source hsource
    obtain ⟨hsame, -, hregistrations⟩ := same_of_source? hsource
    rw [← hsame] at ht
    rw [← hsame, ← hregistrations] at hg
    obtain ⟨r', m', -, -, hkept, hmanagers, hpersist, hrun⟩ :=
      hw'.store.makeManaged_cases ht hunder context
    have hg' : Registry w'.registrations m' := hg.of_same hpersist hmanagers
    rcases hrun with hrun | ⟨base, -, hrun⟩
    · simp only [call, returned, hrun]
      exact (List.append_nil w'.registrations).symm ▸ hg'
    · simp only [call, returned, hrun]
      exact hg'.manageProvider hkept manager base context
  | manageProvider manager context inner hinner =>
    exact hg.manageProvider hstore manager inner context
  | complete manager context =>
    exact hg.complete (suffice_switches w.store.endings) (hw.switches_countsExact w.store.endings)
      hw.store le_rfl
      manager context
  | dispose manager order =>
    exact hg.completeAll (suffice_switches w.store.endings) (hw.switches_countsExact w.store.endings)
      hw.store le_rfl
      manager order .skipped

theorem registry_run (hw : w.Invariant r 0) (hg : Registry w.registrations w.store)
    (ops : List (ClientOp α)) : Registry (w.run ops).registrations (w.run ops).store := by
  induction ops generalizing w r with
  | nil => exact hg
  | cons op ops ih =>
    obtain ⟨r', hw'⟩ := hw.perform op
    exact ih hw' (registry_perform hw hg op)

end registry

end World

end Replay
