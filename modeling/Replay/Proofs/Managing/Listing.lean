import Replay.Proofs.Contexts
import Replay.Proofs.Performing

/-!
The lists of a manager under every operation. Only `manage` adds to a list, and only a provider created
by it; all else keeps the lists or removes from them. So in every reachable store the list of a context
has providers of this manager, without repetition, and no removed provider is listed again.
-/
namespace Replay

open Store

variable {α : Type}

/-- The lists have managed providers with the manager's statistics, without repetition. -/
structure ManagerState.Sound (t : ManagerState) (janitors statistics : Nat) : Prop where
  config : t.config.validate = .ok ()
  statistics : t.statistics < statistics
  managed : ∀ c, ∀ p ∈ t.providersIn c,
    ∃ slot inner, p = .managed slot t.statistics .plain inner ∧ slot < janitors
  distinct : ∀ c, ((t.providersIn c).map Provider.slot?).Nodup

/-- `t'` lists a subset of what `t` lists. -/
structure ManagerState.ListsSubset (t t' : ManagerState) : Prop where
  config : t'.config = t.config
  statistics : t'.statistics = t.statistics
  providers : ∀ c, (t'.providersIn c).Sublist (t.providersIn c)

namespace Store

/-- The list of a context, if it is tracked. -/
def lists (m : Store α) (manager : Nat) (context : String) : Option (List Provider) :=
  (m.manager? manager).bind fun t => t.contexts.lookup context

def listed (m : Store α) (manager : Nat) (context : String) : List Provider :=
  (m.lists manager context).getD []

def Names (m : Store α) (manager : Nat) (context : String) (slot : Nat) : Prop :=
  ∃ p ∈ m.listed manager context, p.slot? = some slot

def Listing (m : Store α) : Prop :=
  ∀ i t, m.manager? i = some t → t.Sound m.janitors.size m.statistics.size

structure ListsSubset (m m' : Store α) : Prop where
  janitors : m.janitors.size ≤ m'.janitors.size
  statistics : m.statistics.size ≤ m'.statistics.size
  manager : ∀ i, Option.Rel ManagerState.ListsSubset (m.manager? i) (m'.manager? i)

/-- The lists stay sound, and no provider of `m` is added to a list. -/
structure ListsExtend (m m' : Store α) : Prop where
  listing : m.Listing → m'.Listing
  janitors : m.janitors.size ≤ m'.janitors.size
  names : ∀ i c slot, slot < m.janitors.size → m'.Names i c slot → m.Names i c slot
  manager : ∀ i t, m.manager? i = some t → ∃ t', m'.manager? i = some t' ∧ t'.statistics = t.statistics

variable {m m' m'' : Store α} {i manager : Nat} {c context : String} {t : ManagerState} {w : Switches α}

theorem listed_of_manager (ht : m.manager? i = some t) (c : String) : m.listed i c = t.providersIn c := by
  rw [listed, lists, ht]
  rfl

theorem listed_of_none (ht : m.manager? i = none) (c : String) : m.listed i c = [] := by
  rw [listed, lists, ht]
  rfl

namespace ListsSubset

theorem of_managers (hmanagers : m'.managers = m.managers) (hjanitors : m.janitors.size ≤ m'.janitors.size)
    (hstatistics : m.statistics.size ≤ m'.statistics.size) : m.ListsSubset m' := by
  refine ⟨hjanitors, hstatistics, fun i => ?_⟩
  rw [manager?, manager?, hmanagers]
  cases m.managers[i]? with
  | none => exact .none
  | some t => exact .some ⟨rfl, rfl, fun c => List.Sublist.refl _⟩

theorem before (h : m.ListsSubset m') (ht : m'.manager? i = some t) :
    ∃ t', m.manager? i = some t' ∧ t'.ListsSubset t := by
  have hrel := h.manager i
  rw [ht] at hrel
  cases ht' : m.manager? i with
  | none =>
    rw [ht'] at hrel
    cases hrel
  | some t' =>
    rw [ht'] at hrel
    cases hrel with
    | some hshort => exact ⟨t', rfl, hshort⟩

theorem after (h : m.ListsSubset m') (ht : m.manager? i = some t) :
    ∃ t', m'.manager? i = some t' ∧ t.ListsSubset t' := by
  have hrel := h.manager i
  rw [ht] at hrel
  cases ht' : m'.manager? i with
  | none =>
    rw [ht'] at hrel
    cases hrel
  | some t' =>
    rw [ht'] at hrel
    cases hrel with
    | some hshort => exact ⟨t', rfl, hshort⟩

theorem trans (h : m.ListsSubset m') (h' : m'.ListsSubset m'') : m.ListsSubset m'' := by
  refine ⟨h.janitors.trans h'.janitors, h.statistics.trans h'.statistics, fun i => ?_⟩
  cases ht : m.manager? i with
  | none =>
    cases ht'' : m''.manager? i with
    | none => exact .none
    | some t'' =>
      obtain ⟨t', ht', -⟩ := h'.before ht''
      obtain ⟨t, hsome, -⟩ := h.before ht'
      rw [ht] at hsome
      cases hsome
  | some t =>
    obtain ⟨t', ht', hshort⟩ := h.after ht
    obtain ⟨t'', ht'', hshort'⟩ := h'.after ht'
    rw [ht'']
    exact .some ⟨hshort'.config.trans hshort.config, hshort'.statistics.trans hshort.statistics,
      fun c => (hshort'.providers c).trans (hshort.providers c)⟩

theorem listing (h : m.ListsSubset m') (hm : m.Listing) : m'.Listing := by
  intro i t' ht'
  obtain ⟨t, ht, hshort⟩ := h.before ht'
  have hsound := hm i t ht
  refine ⟨hshort.config ▸ hsound.config, hshort.statistics ▸ hsound.statistics.trans_le h.statistics,
    fun c p hp => ?_, fun c => (hsound.distinct c).sublist ((hshort.providers c).map _)⟩
  obtain ⟨slot, inner, rfl, hslot⟩ := hsound.managed c p ((hshort.providers c).subset hp)
  exact ⟨slot, inner, by rw [hshort.statistics], hslot.trans_le h.janitors⟩

theorem listsExtend (h : m.ListsSubset m') : m.ListsExtend m' where
  listing := h.listing
  janitors := h.janitors
  names i c slot _ hslot := by
    obtain ⟨p, hp, hslot⟩ := hslot
    cases ht' : m'.manager? i with
    | none =>
      rw [listed_of_none ht'] at hp
      cases hp
    | some t' =>
      obtain ⟨t, ht, hshort⟩ := h.before ht'
      rw [listed_of_manager ht'] at hp
      exact ⟨p, listed_of_manager ht c ▸ (hshort.providers c).subset hp, hslot⟩
  manager i t ht := by
    obtain ⟨t', ht', hshort⟩ := h.after ht
    exact ⟨t', ht', hshort.statistics⟩

end ListsSubset

namespace ListsExtend

theorem refl (m : Store α) : m.ListsExtend m := ⟨id, le_rfl, fun _ _ _ _ => id, fun _ t ht => ⟨t, ht, rfl⟩⟩

theorem trans (h : m.ListsExtend m') (h' : m'.ListsExtend m'') : m.ListsExtend m'' where
  listing := h'.listing ∘ h.listing
  janitors := h.janitors.trans h'.janitors
  names i c slot hslot hnames :=
    h.names i c slot hslot (h'.names i c slot (hslot.trans_le h.janitors) hnames)
  manager i t ht := by
    obtain ⟨t', ht', hstatistics⟩ := h.manager i t ht
    obtain ⟨t'', ht'', hstatistics'⟩ := h'.manager i t' ht'
    exact ⟨t'', ht'', hstatistics'.trans hstatistics⟩

end ListsExtend

theorem steps_listsSubset : Steps (fun _ _ : Feeds α => True) ListsSubset where
  refl _ := trivial
  trans _ _ := trivial
  note _ _ := trivial
  next h h' := h.trans h'
  aside h := .of_managers h.managers h.janitors.ge h.statistics.ge
  feeds _ := .of_managers rfl le_rfl le_rfl

theorem within_listsSubset (left : Nat) :
    (switches left : Switches α).Within (fun _ _ => True) ListsSubset :=
  .switches steps_listsSubset
    (fun _ hw feed => hw.shutBuffer (Feeds.allowsSource_true feed) fun _ _ _ _ => trivial) left

theorem run_complete_unlisted (h : m.lists manager context = none) :
    (Manager.complete w manager context).run m = (.skipped, m) := by
  cases ht : m.manager? manager with
  | none => exact Manager.run_complete_none ht w context
  | some t =>
    rw [lists, ht, Option.bind_some] at h
    exact Manager.run_complete_untracked ht h

theorem lists_forgetting (m : Store α) (manager : Nat) (context : String) (i : Nat) (c : String) :
    (m.forgetting manager context).lists i c =
      if (i, c) = (manager, context) then none else m.lists i c := by
  have hmanager : (m.forgetting manager context).manager? i =
      if manager = i then (m.manager? i).map (·.forget context) else m.manager? i :=
    Array.getElem?_modify ..
  rw [lists, lists, hmanager]
  by_cases hi : manager = i
  · rw [if_pos hi]
    cases m.manager? i with
    | none => exact (ite_self _).symm
    | some t =>
      rw [Option.map_some, Option.bind_some, Option.bind_some, ManagerState.forget, lookup_filter_context]
      refine if_congr ?_ rfl rfl
      rw [Prod.mk.injEq, and_iff_right hi.symm]
  · rw [if_neg hi, if_neg fun h => hi (congrArg Prod.fst h).symm]

theorem within_managers (left : Nat) :
    (switches left : Switches α).Within (fun _ _ => True) fun m m' => m'.managers = m.managers :=
  .switches ⟨⟨fun _ => trivial, fun _ _ => trivial, fun _ _ => trivial⟩, fun h h' => h'.trans h,
    Aside.managers, fun _ => rfl⟩
    (fun _ hw feed => hw.shutBuffer (Feeds.allowsSource_true feed) fun _ _ _ _ => trivial) left

theorem lists_complete (m : Store α) (left manager : Nat) (context : String) (i : Nat) (c : String) :
    ((Manager.complete (switches left) manager context).run m).2.lists i c =
      if (i, c) = (manager, context) then none else m.lists i c := by
  cases hlists : m.lists manager context with
  | none =>
    rw [run_complete_unlisted hlists]
    refine (ite_eq_right_iff.mpr fun h => ?_).symm
    cases h
    exact hlists.symm
  | some ps =>
    obtain ⟨t, ht, hps⟩ := Option.bind_eq_some_iff.mp hlists
    have hmanagers := (within_managers left).releaseAll ps .skipped (m.forgetting manager context)
    rw [Manager.run_complete_tracked ht hps, ← lists_forgetting, lists, lists, manager?, manager?]
    exact congrArg (fun managers : Array ManagerState => managers[i]?.bind (·.contexts.lookup c)) hmanagers

theorem allowsForget_listsSubset : AllowsForget (ListsSubset (α := α)) := by
  intro manager context m
  refine ⟨le_rfl, le_rfl, fun i => ?_⟩
  change Option.Rel _ (m.managers[i]?) (m.managers.modify manager (·.forget context))[i]?
  rw [Array.getElem?_modify]
  cases m.managers[i]? with
  | none =>
    rw [Option.map_none, ite_self]
    exact .none
  | some t =>
    split
    · refine .some ⟨rfl, rfl, fun c => ?_⟩
      rw [ManagerState.providersIn_forget]
      split
      · exact List.nil_sublist _
      · exact List.Sublist.refl _
    · exact .some ⟨rfl, rfl, fun c => List.Sublist.refl _⟩

end Store

theorem ManagerState.config_register (t : ManagerState) (released : Provider → Bool) (context : String)
    (p : Provider) : (t.register released context p).config = t.config := by
  unfold register
  split
  · rfl
  · rfl

theorem ManagerState.lookup_register {t : ManagerState} {context : String}
    (h : t.contexts.lookup context = none) (released : Provider → Bool) (p : Provider) (c : String) :
    (t.register released context p).contexts.lookup c =
      if c = context then some [p] else t.contexts.lookup c := by
  rw [register, h, if_neg (by simp), List.lookup_append]
  split
  · rename_i hc
    rw [hc, h, lookup_entry, if_pos rfl]
    rfl
  · rename_i hc
    rw [lookup_entry, if_neg hc, List.lookup_nil, Option.or_none]

theorem ManagerState.Sound.register {t : ManagerState} {janitors statistics : Nat}
    (ht : t.Sound janitors statistics) (released : Provider → Bool) (context : String) (inner : Provider) :
    (t.register released context (.managed janitors t.statistics .plain inner)).Sound (janitors + 1)
      statistics where
  config := by
    rw [config_register]
    exact ht.config
  statistics := by
    rw [statistics_register]
    exact ht.statistics
  managed c p hp := by
    rw [statistics_register]
    have hold : ∀ c, ∀ q ∈ t.providersIn c,
        ∃ slot inner, q = .managed slot t.statistics .plain inner ∧ slot < janitors + 1 := by
      intro c q hq
      obtain ⟨slot, inner, rfl, hslot⟩ := ht.managed c q hq
      exact ⟨slot, inner, rfl, Nat.lt_succ_of_lt hslot⟩
    rw [providersIn_register] at hp
    split at hp
    · rcases List.mem_append.mp hp with hp | hp
      · exact hold context p (List.mem_of_mem_filter hp)
      · exact ⟨janitors, inner, List.mem_singleton.mp hp, Nat.lt_succ_self _⟩
    · exact hold c p hp
  distinct c := by
    rw [providersIn_register]
    split
    · rw [List.map_append, List.map_singleton, List.nodup_append]
      refine ⟨(ht.distinct context).sublist (List.filter_sublist.map _), List.nodup_singleton _,
        fun slot? hslot? new hnew => ?_⟩
      obtain ⟨q, hq, rfl⟩ := List.mem_map.mp hslot?
      obtain ⟨slot, inner', rfl, hslot⟩ := ht.managed context q (List.mem_of_mem_filter hq)
      rw [List.mem_singleton.mp hnew]
      exact fun hsame => Nat.ne_of_lt hslot (Option.some.inj hsame)
    · exact ht.distinct c

namespace Store

variable {m m' : Store α} {i manager : Nat} {c context : String} {t : ManagerState} {inner : Provider}

/-- The provider created by `manage`. -/
def newManaged (m : Store α) (t : ManagerState) (inner : Provider) : Provider :=
  .managed m.janitors.size t.statistics .plain inner

/-- The store after `manage`. -/
structure Manages (m : Store α) (manager : Nat) (t : ManagerState) (context : String) (inner : Provider)
    (m' : Store α) : Prop where
  janitors : m'.janitors = m.janitors.push {}
  statistics : m'.statistics.size = m.statistics.size
  managers : ∃ released, (∀ p slot, p.slot? = some slot → released p = (m'.janitor slot).released) ∧
    m'.managers = m.managers.modify manager (·.register released context (m.newManaged t inner))

theorem manages_manageProvider (ht : m.manager? manager = some t) (inner : Provider) (context : String) :
    m.Manages manager t context inner ((Manager.manageProvider manager inner context).run m).2 := by
  rw [Manager.run_manageProvider ht]
  exact ⟨rfl, Array.size_modify .., _, fun _ _ => Provider.isReleased_of_slot, rfl⟩

theorem manages_manage (ht : m.manager? manager = some t) (hvalid : t.config.validate = .ok ())
    (w : Switches α) (feed : Nat) (context : String) :
    ∃ inner, m.Manages manager t context inner ((Manager.manage w manager feed context).run m).2 := by
  obtain ⟨b, hb⟩ : ∃ b : Buffer α,
      Buffer.ofConfig t.config ((m.feeds.source? feed).bind m.feeds.announced) = .ok b := by
    rw [Buffer.ofConfig, hvalid]
    exact ⟨_, rfl⟩
  have hrun : (Store.addBuffer w t.config feed).run m =
      (.ok (), { m with feeds := m.feeds.setBuffer feed (some b) }) := by
    rw [Store.addBuffer, Call.run_bind, Call.run_get]
    dsimp only
    rw [hb]
    rfl
  rw [Manager.run_manage ht, hrun]
  have hbase := manages_manageProvider (m := ((Store.addBase feed).run
    { m with feeds := m.feeds.setBuffer feed (some b) }).2) ht
    ((Store.addBase feed).run { m with feeds := m.feeds.setBuffer feed (some b) }).1 context
  exact ⟨_, hbase.janitors, hbase.statistics, hbase.managers⟩

namespace Manages

variable (h : m.Manages manager t context inner m')

include h

theorem manager? (ht : m.manager? manager = some t) (i : Nat) : ∃ released,
    (∀ p slot, p.slot? = some slot → released p = (m'.janitor slot).released) ∧ m'.manager? i =
      if manager = i then some (t.register released context (m.newManaged t inner)) else m.manager? i := by
  obtain ⟨released, hreleased, hmanagers⟩ := h.managers
  refine ⟨released, hreleased, ?_⟩
  rw [Store.manager?, hmanagers, Array.getElem?_modify]
  split
  · rename_i hi
    rw [← hi]
    exact congrArg (Option.map _) ht
  · rfl

theorem listing (ht : m.manager? manager = some t) (hm : m.Listing) : m'.Listing := by
  intro i t' ht'
  obtain ⟨released, -, hmanager⟩ := h.manager? ht i
  have hsize : m'.janitors.size = m.janitors.size + 1 := h.janitors ▸ Array.size_push ..
  rw [ht'] at hmanager
  rw [hsize, h.statistics]
  split at hmanager
  · cases hmanager
    exact (hm manager t ht).register released context inner
  · obtain ⟨hconfig, hstatistics, hmanaged, hdistinct⟩ := hm i t' hmanager.symm
    refine ⟨hconfig, hstatistics, fun c p hp => ?_, hdistinct⟩
    obtain ⟨slot, inner', hp, hslot⟩ := hmanaged c p hp
    exact ⟨slot, inner', hp, Nat.lt_succ_of_lt hslot⟩

theorem listsExtend (ht : m.manager? manager = some t) : m.ListsExtend m' where
  listing := h.listing ht
  janitors := h.janitors ▸ (Nat.le_succ _).trans_eq (Array.size_push ..).symm
  names i c slot hslot hnames := by
    obtain ⟨released, -, hmanager⟩ := h.manager? ht i
    obtain ⟨p, hp, hp'⟩ := hnames
    by_cases hi : manager = i
    · subst hi
      rw [if_pos rfl] at hmanager
      rw [listed_of_manager hmanager, ManagerState.providersIn_register] at hp
      rw [Names, listed_of_manager ht]
      split at hp
      · rename_i hc
        rcases List.mem_append.mp hp with hp | hp
        · exact ⟨p, hc ▸ List.mem_of_mem_filter hp, hp'⟩
        · rw [List.mem_singleton.mp hp] at hp'
          cases hp'
          exact absurd hslot (Nat.lt_irrefl _)
      · exact ⟨p, hp, hp'⟩
    · rw [if_neg hi] at hmanager
      rw [listed, lists, hmanager] at hp
      exact ⟨p, hp, hp'⟩
  manager i t' ht' := by
    obtain ⟨released, -, hmanager⟩ := h.manager? ht i
    rw [hmanager]
    split
    · rename_i hi
      rw [← hi, ht] at ht'
      cases ht'
      exact ⟨_, rfl, t.statistics_register released context _⟩
    · exact ⟨t', ht', rfl⟩

theorem reopens (ht : m.manager? manager = some t) (hnone : m.lists manager context = none) :
    m'.lists manager context = some [m.newManaged t inner] ∧
      ∀ i c, (i, c) ≠ (manager, context) → m'.lists i c = m.lists i c := by
  have hcontext : t.contexts.lookup context = none := by
    rw [lists, ht] at hnone
    exact hnone
  refine ⟨?_, fun i c hne => ?_⟩
  · obtain ⟨released, -, hmanager⟩ := h.manager? ht manager
    rw [if_pos rfl] at hmanager
    rw [lists, hmanager, Option.bind_some, ManagerState.lookup_register hcontext, if_pos rfl]
  · obtain ⟨released, -, hmanager⟩ := h.manager? ht i
    rw [lists, hmanager, lists]
    split
    · rename_i hi
      have hc : c ≠ context := fun hc => hne (by rw [← hi, hc])
      rw [Option.bind_some, ManagerState.lookup_register hcontext, if_neg hc, ← hi, ht, Option.bind_some]
    · rfl

end Manages

theorem listsExtend_manageProvider (m : Store α) (manager : Nat) (inner : Provider) (context : String) :
    m.ListsExtend ((Manager.manageProvider manager inner context).run m).2 := by
  cases ht : m.manager? manager with
  | none =>
    rw [Manager.run_manageProvider_none ht]
    exact .refl m
  | some t => exact (manages_manageProvider ht inner context).listsExtend ht

theorem listsExtend_manage (m : Store α) (left manager feed : Nat) (context : String) :
    m.ListsExtend ((Manager.manage (switches left) manager feed context).run m).2 := by
  cases ht : m.manager? manager with
  | none =>
    rw [Manager.run_manage_none ht]
    exact .refl m
  | some t =>
    have hbuffer : m.ListsSubset ((Store.addBuffer (switches left) t.config feed).run m).2 :=
      (within_listsSubset left).addBuffer (Feeds.allowsSource_true feed) (fun _ _ _ _ => trivial) m
    rw [Manager.run_manage ht]
    rcases hrun : (Store.addBuffer (switches left) t.config feed).run m with ⟨e | u, m'⟩
    · rw [hrun] at hbuffer
      exact hbuffer.listsExtend
    · rw [hrun] at hbuffer
      have hbase := steps_listsSubset.addBase feed m'
      exact (hbuffer.trans hbase).listsExtend.trans (listsExtend_manageProvider _ manager _ context)

theorem listsExtend_addManager (m : Store α) (config : Config) :
    m.ListsExtend ((Store.addManager config).run m).2 := by
  unfold Store.addManager
  split
  · exact .refl m
  · rename_i hvalid
    have hpush : ∀ i, (m.managers.push { config, statistics := m.statistics.size })[i]? =
        if i = m.managers.size then some { config, statistics := m.statistics.size }
        else m.manager? i := fun i => Array.getElem?_push
    refine ⟨fun hm i t ht => ?_, le_rfl, fun i c slot _ hnames => ?_, fun i t ht => ⟨t, ?_, rfl⟩⟩
    · have hsize : (m.statistics.push {}).size = m.statistics.size + 1 := Array.size_push ..
      change t.Sound m.janitors.size (m.statistics.push {}).size
      replace ht := (hpush i).symm.trans ht
      rw [hsize]
      split at ht
      · cases ht
        exact ⟨hvalid, Nat.lt_succ_self _, fun c p hp => absurd hp List.not_mem_nil, fun c => List.nodup_nil⟩
      · exact { hm i t ht with statistics := Nat.lt_succ_of_lt (hm i t ht).statistics }
    · obtain ⟨p, hp, hslot⟩ := hnames
      rw [listed, lists, manager?] at hp
      change p ∈ ((m.managers.push { config, statistics := m.statistics.size })[i]?.bind _).getD [] at hp
      rw [hpush] at hp
      split at hp
      · cases hp
      · exact ⟨p, hp, hslot⟩
    · refine (hpush i).trans ((if_neg (Nat.ne_of_lt ?_)).trans ht)
      exact (Array.getElem?_eq_some_iff.mp ht).1

end Store

namespace StoreOp

variable {m : Store α}

/-- Every operation keeps the lists sound, and lists no existing provider. -/
theorem listsExtend_perform (m : Store α) (d : StoreOp α) : m.ListsExtend (d.perform m) := by
  have hallowed : ∀ {d : StoreOp α}, d.Allowed (fun _ _ => True) ListsSubset m →
    m.ListsExtend (d.perform m) :=
    fun hd => (within_perform hd within_listsSubset ⟨fun _ _ => trivial, fun _ _ => trivial⟩).listsExtend
  cases d with
  | complete manager context => exact hallowed allowsForget_listsSubset
  | dispose manager => exact hallowed allowsForget_listsSubset
  | addManager config => exact listsExtend_addManager m config
  | manageProvider manager inner context => exact listsExtend_manageProvider m manager inner context
  | manage manager feed context =>
    rw [perform, afterWith_eq]
    exact listsExtend_manage m m.endings manager feed context
  | addStatistics =>
    exact hallowed (.of_managers rfl le_rfl ((Nat.le_succ _).trans_eq (Array.size_push ..).symm))
  | addManaged statistics hook inner =>
    exact hallowed (.of_managers rfl ((Nat.le_succ _).trans_eq (Array.size_push ..).symm)
      (Array.size_modify ..).ge)
  | addJanitor statistics openCursors delegate =>
    exact hallowed (.of_managers rfl ((Nat.le_succ _).trans_eq (Array.size_push ..).symm) le_rfl)
  | addBuffer config feed => exact hallowed ⟨Feeds.allowsSource_true feed, fun _ _ _ _ => trivial⟩
  | closeSource feed => exact hallowed (Feeds.allowsSource_true feed)
  | closeBuffer feed =>
    refine hallowed ?_
    rw [Allowed, perform, afterWith_eq]
    exact (within_listsSubset m.endings).shutBuffer (Feeds.allowsSource_true feed) (fun _ _ _ _ => trivial) m
  | settle held => exact hallowed fun feed _ => Feeds.allowsSource_true feed
  | _ => exact hallowed trivial

theorem listsExtend_run (m : Store α) (ops : List (StoreOp α)) : m.ListsExtend (run m ops) := by
  induction ops generalizing m with
  | nil => exact .refl m
  | cons d ds ih => exact (listsExtend_perform m d).trans (ih (d.perform m))

theorem listing_run (ops : List (StoreOp α)) : (run {} ops : Store α).Listing :=
  (listsExtend_run {} ops).listing fun i t ht => by cases ht

end StoreOp

end Replay
