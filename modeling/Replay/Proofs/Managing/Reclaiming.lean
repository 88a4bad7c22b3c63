import Replay.Proofs.Managing.Listing
import Replay.Proofs.World.Registry

/-!
Listed providers are not lost. A provider leaves a list after its release, or by the completion of its
context, which releases it. So once the context of a provider has been completed the provider is
released.
-/
namespace Replay

open Store

variable {α : Type}

namespace Store

/-- Every provider that is no longer listed has been released. -/
structure Reclaims (m m' : Store α) : Prop extends FlagsPersist m m' where
  names : ∀ i c, ∀ slot < m.janitors.size, m.Names i c slot → m'.Names i c slot ∨ (m'.janitor slot).released

variable {m m' m'' : Store α} {i manager left : Nat} {context : String} {t : ManagerState} {inner : Provider}

namespace Reclaims

theorem of_managers (h : m.FlagsPersist m') (hmanagers : m'.managers = m.managers) : m.Reclaims m' where
  toFlagsPersist := h
  names i c slot _ hnames := by
    refine .inl ?_
    rwa [Names, listed, lists, manager?, hmanagers]

theorem refl (m : Store α) : m.Reclaims m := .of_managers (.refl m) rfl

theorem trans (h : m.Reclaims m') (h' : m'.Reclaims m'') : m.Reclaims m'' where
  toFlagsPersist := h.toFlagsPersist.trans h'.toFlagsPersist
  names i c slot hslot hnames := by
    rcases h.names i c slot hslot hnames with hlisted | hreleased
    · exact h'.names i c slot (hslot.trans_le h.size) hlisted
    · exact .inr (h'.released slot (hslot.trans_le h.size) hreleased)

end Reclaims

theorem Manages.reclaims (h : m.Manages manager t context inner m') (ht : m.manager? manager = some t) :
    m.Reclaims m' where
  toFlagsPersist := .of_push h.janitors
  names i c slot _ hnames := by
    obtain ⟨p, hp, hslot⟩ := hnames
    obtain ⟨released, hreleased, hmanager⟩ := h.manager? ht i
    split at hmanager
    · rename_i hi
      subst hi
      rw [Names, listed_of_manager hmanager, ManagerState.providersIn_register]
      rw [listed_of_manager ht] at hp
      split
      · rename_i hc
        cases hlive : released p with
        | true => exact .inr ((hreleased p slot hslot).symm.trans hlive)
        | false =>
          refine .inl ⟨p, List.mem_append_left _ (List.mem_filter.mpr ⟨hc ▸ hp, ?_⟩), hslot⟩
          rw [hlive]
          rfl
      · exact .inl ⟨p, hp, hslot⟩
    · exact .inl ⟨p, by rwa [listed, lists, hmanager], hslot⟩

theorem reclaims_manageProvider (m : Store α) (manager : Nat) (inner : Provider) (context : String) :
    m.Reclaims ((Manager.manageProvider manager inner context).run m).2 := by
  cases ht : m.manager? manager with
  | none =>
    rw [Manager.run_manageProvider_none ht]
    exact .refl m
  | some t => exact (manages_manageProvider ht inner context).reclaims ht

theorem reclaims_complete (hleft : m.endings ≤ left) (manager : Nat) (context : String) :
    m.Reclaims ((Manager.complete (switches left) manager context).run m).2 where
  toFlagsPersist := ((suffice_switches left).complete manager context).addsBuffersOnly m hleft |>.2
  names i c slot _ hnames := by
    obtain ⟨p, hp, hslot⟩ := hnames
    by_cases hsame : (i, c) = (manager, context)
    · cases hsame
      cases ht : m.manager? manager with
      | none =>
        rw [listed_of_none ht] at hp
        cases hp
      | some t =>
        rw [listed_of_manager ht] at hp
        exact .inr (released_complete (suffice_switches left) (m.pending_le_endings.trans hleft) ht hp hslot)
    · refine .inl ⟨p, ?_, hslot⟩
      rwa [listed, lists_complete, if_neg hsame]

theorem reclaims_completeAll (hleft : m.endings ≤ left) (manager : Nat) (contexts : List String)
    (report : Report) :
    m.Reclaims ((Manager.completeAll (switches left) manager contexts report).run m).2 := by
  induction contexts generalizing m report with
  | nil => exact .refl m
  | cons context contexts ih =>
    have hadds := ((suffice_switches left).complete manager context).addsBuffersOnly m hleft
    exact (reclaims_complete hleft manager context).trans (ih hadds.1 _)

theorem reclaims_dispose (hleft : m.endings ≤ left) (manager : Nat) :
    m.Reclaims ((Manager.dispose (switches left) manager).run m).2 := by
  rw [Manager.dispose, Call.run_bind, Call.run_get]
  dsimp only
  cases m.manager? manager with
  | none => exact .refl m
  | some t => exact reclaims_completeAll hleft manager _ .skipped

theorem reclaims_manage (m : Store α) (manager feed : Nat) (context : String) :
    m.Reclaims ((Manager.manage (switches m.endings) manager feed context).run m).2 := by
  cases ht : m.manager? manager with
  | none =>
    rw [Manager.run_manage_none ht]
    exact .refl m
  | some t =>
    have hmanagers : ((Store.addBuffer (switches m.endings) t.config feed).run m).2.managers = m.managers :=
      (within_managers m.endings).addBuffer (Feeds.allowsSource_true feed) (fun _ _ _ _ => trivial) m
    have hpersist := ((suffice_switches m.endings).addsBuffersOnly_addBuffer t.config feed m le_rfl).2
    rw [Manager.run_manage ht]
    rcases hrun : (Store.addBuffer (switches m.endings) t.config feed).run m with ⟨e | u, m'⟩
    · rw [hrun] at hmanagers hpersist
      exact .of_managers hpersist hmanagers
    · rw [hrun] at hmanagers hpersist
      have hbase := (keepsOrderly_addBase feed m').1
      exact (Reclaims.of_managers (hpersist.trans hbase) hmanagers).trans
        (reclaims_manageProvider _ manager _ context)

end Store

namespace StoreOp

theorem reclaims_perform (m : Store α) (d : StoreOp α) : m.Reclaims (d.perform m) := by
  have hallowed : d.Allowed (fun _ _ => True) (fun m m' => m'.managers = m.managers) m →
      m.Reclaims (d.perform m) := fun hd => .of_managers (flagsPersist_perform m d)
    (within_perform hd within_managers ⟨fun _ _ => trivial, fun _ _ => trivial⟩)
  cases d with
  | addManager config =>
    refine ⟨flagsPersist_perform m (.addManager config), fun i c slot _ hnames => ?_⟩
    obtain ⟨p, hp, hslot⟩ := hnames
    cases ht : m.manager? i with
    | none =>
      rw [listed_of_none ht] at hp
      cases hp
    | some t =>
      rw [listed_of_manager ht] at hp
      exact .inl ⟨p, listed_of_manager (manager?_addManager ht config) c ▸ hp, hslot⟩
  | manageProvider manager inner context => exact reclaims_manageProvider m manager inner context
  | manage manager feed context =>
    rw [perform, afterWith_eq]
    exact reclaims_manage m manager feed context
  | complete manager context =>
    rw [perform, afterWith_eq]
    exact reclaims_complete le_rfl manager context
  | dispose manager =>
    rw [perform, afterWith_eq]
    exact reclaims_dispose le_rfl manager
  | addBuffer config feed => exact hallowed ⟨Feeds.allowsSource_true feed, fun _ _ _ _ => trivial⟩
  | closeSource feed => exact hallowed (Feeds.allowsSource_true feed)
  | closeBuffer feed =>
    refine hallowed ?_
    rw [Allowed, perform, afterWith_eq]
    exact (within_managers m.endings).shutBuffer (Feeds.allowsSource_true feed) (fun _ _ _ _ => trivial) m
  | settle held => exact hallowed fun feed _ => Feeds.allowsSource_true feed
  | addStatistics | addManaged | addJanitor => exact hallowed rfl
  | _ => exact hallowed trivial

theorem reclaims_run (m : Store α) (ops : List (StoreOp α)) : m.Reclaims (run m ops) := by
  induction ops generalizing m with
  | nil => exact .refl m
  | cons d ds ih => exact (reclaims_perform m d).trans (ih (d.perform m))

end StoreOp

end Replay
