import Mathlib.Data.List.Nodup
import Mathlib.Order.Basic
import Replay.Manager

/-!
The contexts of a manager: each is listed once and is non-empty. Registering a provider adds it to its
own context and removes released providers from that one; completing removes one context.
-/
namespace Replay

variable {α : Type}

theorem modify_eq_self {β : Type} {xs : Array β} {i : Nat} {f : β → β}
    (h : ∀ x, xs[i]? = some x → f x = x) : xs.modify i f = xs := by
  refine Array.ext_getElem? fun k => ?_
  rw [Array.getElem?_modify]
  split
  · rename_i hk
    subst hk
    cases hx : xs[i]? with
    | none => rfl
    | some x => exact congrArg some (h x hx)
  · rfl

theorem lookup_entry (context : String) (ps : List Provider) (l : List (String × List Provider))
    (c : String) :
    ((context, ps) :: l).lookup c = if c = context then some ps else l.lookup c := by
  rw [List.lookup_cons]
  by_cases hc : c = context
  · rw [if_pos hc, beq_iff_eq.mpr hc]
  · rw [if_neg hc, beq_eq_false_iff_ne.mpr hc]

theorem lookup_map_context (l : List (String × List Provider)) (f : List Provider → List Provider)
    (context c : String) :
    (l.map fun entry => if entry.1 = context then (context, f entry.2) else entry).lookup c =
      if c = context then (l.lookup context).map f else l.lookup c := by
  induction l with
  | nil =>
    split
    · rfl
    · rfl
  | cons entry l ih =>
    obtain ⟨key, ps⟩ := entry
    rw [List.map_cons]
    by_cases hkey : key = context
    · subst hkey
      rw [if_pos rfl, lookup_entry, lookup_entry, lookup_entry, ih, if_pos rfl]
      split
      · rfl
      · rfl
    · rw [if_neg hkey, lookup_entry, lookup_entry, lookup_entry, ih, if_neg (Ne.symm hkey)]
      by_cases hc : c = context
      · rw [if_pos hc, if_pos hc, if_neg (hc ▸ Ne.symm hkey)]
      · rw [if_neg hc, if_neg hc]

theorem lookup_filter_context (l : List (String × List Provider)) (context c : String) :
    (l.filter fun entry => entry.1 ≠ context).lookup c =
      if c = context then none else l.lookup c := by
  induction l with
  | nil =>
    split
    · rfl
    · rfl
  | cons entry l ih =>
    obtain ⟨key, ps⟩ := entry
    rw [List.filter_cons, lookup_entry]
    by_cases hkey : key = context
    · subst hkey
      rw [if_neg (by simp), ih]
      split
      · rfl
      · rfl
    · rw [if_pos (by simpa using hkey), lookup_entry, ih]
      by_cases hc : c = context
      · rw [if_pos hc, if_pos hc, if_neg (hc ▸ Ne.symm hkey)]
      · rw [if_neg hc, if_neg hc]

def Provider.slot? (p : Provider) : Option Nat := p.janitor?.map Janitor.slot

namespace ManagerState

variable {t : ManagerState} {released : Provider → Bool} {context c : String} {p : Provider}

/-- Context names are distinct and no context is empty. -/
structure ContextsDistinct (t : ManagerState) : Prop where
  keys : (t.contexts.map Prod.fst).Nodup
  full : ∀ entry ∈ t.contexts, entry.2 ≠ []

theorem mem_of_mem_providersIn (h : p ∈ t.providersIn c) : ∃ entry ∈ t.contexts, p ∈ entry.2 := by
  rw [providersIn] at h
  cases hc : t.contexts.lookup c with
  | none =>
    rw [hc] at h
    cases h
  | some ps =>
    rw [hc] at h
    obtain ⟨before, after, hcontexts, -⟩ := List.lookup_eq_some_iff.mp hc
    refine ⟨(c, ps), ?_, h⟩
    rw [hcontexts]
    exact List.mem_append_right _ List.mem_cons_self

theorem statistics_register (t : ManagerState) (released : Provider → Bool) (context : String)
    (p : Provider) : (t.register released context p).statistics = t.statistics := by
  unfold register
  split
  · rfl
  · rfl

theorem forall_register {P : Provider → Prop} (ht : ∀ entry ∈ t.contexts, ∀ p ∈ entry.2, P p)
    (released : Provider → Bool) (context : String) (hp : P p) :
    ∀ entry ∈ (t.register released context p).contexts, ∀ q ∈ entry.2, P q := by
  intro entry hentry q hq
  unfold register at hentry
  split at hentry
  · obtain ⟨old, hold, rfl⟩ := List.mem_map.mp hentry
    split at hq
    · rcases List.mem_append.mp hq with hq | hq
      · exact ht old hold q (List.mem_of_mem_filter hq)
      · exact List.mem_singleton.mp hq ▸ hp
    · exact ht old hold q hq
  · rcases List.mem_append.mp hentry with hentry | hentry
    · exact ht entry hentry q hq
    · cases List.mem_singleton.mp hentry
      exact List.mem_singleton.mp hq ▸ hp

theorem providersIn_register :
    (t.register released context p).providersIn c =
      if c = context then (t.providersIn context).filter (fun q => !released q) ++ [p]
      else t.providersIn c := by
  unfold register
  split
  · rename_i hsome
    obtain ⟨ps, hps⟩ := Option.isSome_iff_exists.mp hsome
    rw [providersIn, lookup_map_context _ fun ps => ps.filter (fun q => !released q) ++ [p]]
    split
    · rw [providersIn, hps]
      rfl
    · rfl
  · rename_i hnone
    rw [Bool.not_eq_true, Option.isSome_eq_false_iff, Option.isNone_iff_eq_none] at hnone
    rw [providersIn, List.lookup_append]
    split
    · rename_i hc
      subst hc
      rw [providersIn, hnone]
      simp
    · rename_i hc
      rw [lookup_entry, if_neg hc, List.lookup_nil, Option.or_none]
      rfl

theorem providersIn_forget :
    (t.forget context).providersIn c = if c = context then [] else t.providersIn c := by
  rw [forget, providersIn, lookup_filter_context]
  split
  · rfl
  · rfl

theorem ContextsDistinct.register (ht : t.ContextsDistinct) :
    (t.register released context p).ContextsDistinct := by
  unfold ManagerState.register
  split
  · refine ⟨?_, fun entry hentry => ?_⟩
    · have hsame : (t.contexts.map fun entry => if entry.1 = context then
          (context, entry.2.filter (fun q => !released q) ++ [p]) else entry).map Prod.fst =
          t.contexts.map Prod.fst := by
        rw [List.map_map]
        refine List.map_congr_left fun entry _ => ?_
        rw [Function.comp_apply]
        split
        · rename_i hkey
          exact hkey.symm
        · rfl
      exact hsame ▸ ht.keys
    · obtain ⟨old, hold, rfl⟩ := List.mem_map.mp hentry
      split
      · exact List.append_ne_nil_of_right_ne_nil _ (List.cons_ne_nil _ _)
      · exact ht.full old hold
  · rename_i hnone
    rw [Bool.not_eq_true, Option.isSome_eq_false_iff, Option.isNone_iff_eq_none,
      List.lookup_eq_none_iff] at hnone
    refine ⟨?_, fun entry hentry => ?_⟩
    · rw [List.map_append, List.map_singleton, List.nodup_append]
      refine ⟨ht.keys, List.nodup_singleton _, fun key hkey other hother => ?_⟩
      obtain ⟨entry, hentry, rfl⟩ := List.mem_map.mp hkey
      have hne := hnone entry hentry
      rw [List.mem_singleton.mp hother]
      rintro rfl
      simp at hne
    · rcases List.mem_append.mp hentry with hentry | hentry
      · exact ht.full entry hentry
      · cases List.mem_singleton.mp hentry
        exact List.cons_ne_nil _ _

theorem forget_of_untracked (h : t.contexts.lookup context = none) : t.forget context = t := by
  have hsame : t.contexts.filter (fun entry => entry.1 ≠ context) = t.contexts := by
    refine List.filter_eq_self.mpr fun entry hentry => ?_
    have hne := List.lookup_eq_none_iff.mp h entry hentry
    exact decide_eq_true (bne_iff_ne.mp hne).symm
  rw [forget, hsame]

theorem ContextsDistinct.forget (ht : t.ContextsDistinct) : (t.forget context).ContextsDistinct :=
  ⟨ht.keys.sublist (List.filter_sublist.map Prod.fst),
    fun entry hentry => ht.full entry (List.mem_of_mem_filter hentry)⟩

/-- How often the provider of a janitor is listed under a context. -/
def listed (t : ManagerState) (slot : Nat) (context : String) : Nat :=
  (t.providersIn context).countP fun p => p.slot? = some slot

theorem listed_forget (slot : Nat) :
    (t.forget context).listed slot c = if c = context then 0 else t.listed slot c := by
  rw [listed, providersIn_forget]
  split
  · rfl
  · rfl

theorem listed_register (slot : Nat) : (t.register released context p).listed slot c =
    if c = context then
      ((t.providersIn context).filter fun q => !released q).countP (fun q => q.slot? = some slot) +
        if p.slot? = some slot then 1 else 0
    else t.listed slot c := by
  rw [listed, providersIn_register]
  split
  · rw [List.countP_append, List.countP_singleton]
    simp only [decide_eq_true_eq]
  · rfl

theorem listed_register_le {slot : Nat} (hp : p.slot? ≠ some slot) :
    (t.register released context p).listed slot c ≤ t.listed slot c := by
  rw [listed_register, if_neg hp, Nat.add_zero]
  split
  · rename_i hc
    rw [hc]
    exact List.filter_sublist.countP_le
  · exact Nat.le_refl _

theorem listed_register_of_live {slot : Nat} (hp : p.slot? ≠ some slot)
    (hlive : ∀ q : Provider, q.slot? = some slot → released q = false) :
    (t.register released context p).listed slot c = t.listed slot c := by
  rw [listed_register, if_neg hp, Nat.add_zero]
  split
  · rename_i hc
    rw [hc, listed, List.countP_filter]
    refine List.countP_congr fun q _ => ?_
    rw [Bool.and_eq_true, decide_eq_true_eq]
    exact ⟨And.left, fun hq => ⟨hq, by rw [hlive q hq]; rfl⟩⟩
  · rfl

theorem listed_register_self {slot : Nat} (hp : p.slot? = some slot)
    (hnew : ∀ c, t.listed slot c = 0) :
    (t.register released context p).listed slot c = if c = context then 1 else 0 := by
  rw [listed_register, if_pos hp]
  split
  · have hnone := Nat.le_zero.mp ((List.filter_sublist
      (p := fun q => !released q)).countP_le.trans_eq (hnew context))
    rw [hnone]
  · exact hnew c

end ManagerState

theorem Provider.isReleased_of_slot {m : Store α} {p : Provider} {slot : Nat}
    (h : p.slot? = some slot) : p.isReleased m = (m.janitor slot).released := by
  cases p with
  | managed slot' statistics hook inner =>
    cases h
    rfl
  | base slot' id feed => cases h
  | scripted slot' script inner => cases h

section runs

open Store

variable {m : Store α}

theorem Store.run_addManaged (q : Nat) (hook : Hook) (inner : Provider) (m : Store α) :
    ((Store.addManaged q hook inner).run m).1 = .managed m.janitors.size q hook inner := rfl

theorem Store.manager?_addManager {i : Nat} {t : ManagerState} (ht : m.manager? i = some t)
    (config : Config) :
    ((Store.addManager config).run m).2.manager? i = some t := by
  unfold Store.addManager
  split
  · exact ht
  · have hne := Nat.ne_of_lt (Array.getElem?_eq_some_iff.mp ht).1
    exact (Array.getElem?_push ..).trans ((if_neg hne).trans ht)

def Store.forgetting (m : Store α) (manager : Nat) (context : String) : Store α :=
  { m with managers := m.managers.modify manager (·.forget context) }

namespace Manager

variable {manager : Nat} {t : ManagerState} {w : Switches α} {context : String}

theorem run_manageProvider (ht : m.manager? manager = some t) (inner : Provider) (context : String) :
    (manageProvider manager inner context).run m =
      (do
        let p ← Store.addManaged t.statistics .plain inner
        note (.providerRegistered p.id context)
        let m ← get
        Store.onManager manager fun t => t.register (Provider.isReleased m) context p
        return some p : Call α (Option Provider)).run m := by
  rw [manageProvider, Call.run_bind, Call.run_get]
  dsimp only
  rw [ht]

theorem run_manageProvider_none (ht : m.manager? manager = none) (inner : Provider) (context : String) :
    (manageProvider manager inner context).run m = (none, m) := by
  rw [manageProvider, Call.run_bind, Call.run_get]
  dsimp only
  rw [ht]
  rfl

theorem run_manage (ht : m.manager? manager = some t) (w : Switches α) (feed : Nat) (context : String) :
    (manage w manager feed context).run m =
      match (Store.addBuffer w t.config feed).run m with
      | (.error e, m') => (.error e, m')
      | (.ok _, m') => (do
          let base ← Store.addBase feed
          let p ← manageProvider manager base context
          return .ok p : Call α (Except StreamError (Option Provider))).run m' := by
  rw [manage, Call.run_bind, Call.run_get]
  dsimp only
  rw [ht]
  dsimp only
  rw [Call.run_bind]
  rcases (Store.addBuffer w t.config feed).run m with ⟨e | u, m'⟩
  · rfl
  · rfl

theorem run_manage_none (ht : m.manager? manager = none) (w : Switches α) (feed : Nat) (context : String) :
    (manage w manager feed context).run m = (.ok none, m) := by
  rw [manage, Call.run_bind, Call.run_get]
  dsimp only
  rw [ht]
  rfl

theorem run_complete_none (ht : m.manager? manager = none) (w : Switches α) (context : String) :
    (complete w manager context).run m = (.skipped, m) := by
  rw [complete, Call.run_bind, Call.run_get]
  dsimp only
  rw [ht]
  rfl

theorem run_complete_untracked (ht : m.manager? manager = some t) (hps : t.contexts.lookup context = none) :
    (complete w manager context).run m = (.skipped, m) := by
  rw [complete, Call.run_bind, Call.run_get]
  dsimp only
  rw [ht]
  dsimp only
  rw [hps]
  rfl

theorem run_complete_tracked {ps : List Provider} (ht : m.manager? manager = some t)
    (hps : t.contexts.lookup context = some ps) : (complete w manager context).run m = (do
      let report ← releaseAll w ps .skipped
      note (.contextCompleted context ps.length report.faults.length)
      return report : Call α Report).run (m.forgetting manager context) := by
  rw [complete, Call.run_bind, Call.run_get]
  dsimp only
  rw [ht]
  dsimp only
  rw [hps]
  rfl

end Manager

end runs

end Replay
