import Replay.Proofs.Contexts
import Replay.Proofs.Hosting.Releasing
import Replay.Proofs.World.ClientOps

/-!
The creation of a managed provider over a new buffer, by a user or by a manager on behalf of a context.
Either way it is in use, with no cursor open.
-/
namespace Replay

open Store

variable {α : Type}

/-- Who creates the managed provider. -/
inductive Registrar where
  | user (config : Config) (statistics : Nat)
  | manager (slot : Nat) (context : String)

namespace Registrar

/-- The configuration of the new buffer; a manager has one for all its buffers. -/
def config? (m : Store α) : Registrar → Option Config
  | user config _ => some config
  | manager slot _ => (m.manager? slot).map ManagerState.config

def make (source : Source α) : Registrar → Call α (Option Provider)
  | user config statistics => do
    match ← World.makeBase config source with
    | none => return none
    | some base => return some (← addManaged statistics .plain base)
  | manager slot context => World.makeManaged slot context source

end Registrar

variable {m m' : Store α} {config : Config} {source : Source α} {feed : Nat}

/-- The store `m'` is `m` with a buffer over a new source. -/
structure Store.Feeding (ownership : Ownership) (m m' : Store α) : Prop where
  terms : m'.feeds.terms m.feeds.cells.size = some ⟨true, 0, some (false, ownership)⟩
  janitors : m'.janitors = m.janitors
  managers : m'.managers = m.managers

theorem Store.feeding_addBuffer (w : Switches α)
    (h : (addBuffer w config m.feeds.cells.size).run ((addSource source).run m).2 = (.ok (), m')) :
    Feeding config.ownership m m' := by
  rw [addBuffer, Call.run_bind, Call.run_get] at h
  dsimp only at h
  split at h
  · cases h
  · rename_i b hb
    cases h
    have hcell : ((addSource source).run m).2.feeds.cells[m.feeds.cells.size]? =
        some { source := some source } := Array.getElem?_push_size
    have hnew : ((addSource source).run m).2.feeds.terms m.feeds.cells.size = some ⟨true, 0, none⟩ := by
      rw [Feeds.terms, hcell]
      rfl
    have hterms : (((addSource source).run m).2.feeds.setBuffer m.feeds.cells.size (some b)).terms
        m.feeds.cells.size = _ := Feeds.terms_setBuffer _ _
    rw [if_pos rfl, hnew, Option.map_some, Option.map_some, Buffer.status_ofConfig hb] at hterms
    exact ⟨hterms, rfl, rfl⟩

theorem Host.inUse_addManaged {ownership : Ownership} (h : Feeding ownership m m') (q : Nat) :
    ∃ a : Host, a.feed = m.feeds.cells.size ∧ ((do
        let base ← addBase m.feeds.cells.size
        addManaged q .plain base : Call α Provider).run m').1 = a.provider ∧
      a.InUse ownership false 0 ((do
        let base ← addBase m.feeds.cells.size
        addManaged q .plain base : Call α Provider).run m').2 := by
  refine ⟨⟨m'.janitors.size, q, m'.closedBases.size, ⟨m'.nextProvider⟩, m.feeds.cells.size⟩,
    rfl, rfl, ?_⟩
  have hjanitor : (m'.janitors.push {}).getD m'.janitors.size .void = {} := by
    rw [Array.getD_eq_getD_getElem?, Array.getElem?_push_size]
    rfl
  exact ⟨congrArg JanitorState.closed hjanitor, congrArg JanitorState.released hjanitor,
    congrArg JanitorState.openCursors hjanitor, h.terms⟩

theorem Registrar.inUse_make {registrar : Registrar} {p : Provider}
    (h : (registrar.make source).run m = (some p, m')) : ∃ (a : Host) (config : Config),
      registrar.config? m = some config ∧ a.feed = m.feeds.cells.size ∧ p = a.provider ∧
        a.InUse config.ownership false 0 m' := by
  cases registrar with
  | user config q =>
    rw [make, Call.run_bind, World.run_makeBase] at h
    rcases hadd : (addBuffer (switches ((addSource source).run m).2.endings) config
      ((addSource source).run m).1).run ((addSource source).run m).2 with ⟨e | u, m₁⟩
    · rw [hadd] at h
      cases h
    · rw [hadd] at h
      obtain ⟨a, hfeed, hp, ha⟩ := Host.inUse_addManaged (feeding_addBuffer _ hadd) q
      cases h
      exact ⟨a, config, rfl, hfeed, hp, ha⟩
  | manager slot context =>
    cases ht : m.manager? slot with
    | none =>
      rw [make, World.run_makeManaged_none ht] at h
      cases h
    | some t =>
      rw [make, World.run_makeManaged ht] at h
      rcases hadd : (addBuffer (switches ((addSource source).run m).2.endings) t.config
        ((addSource source).run m).1).run ((addSource source).run m).2 with ⟨e | u, m₁⟩
      · rw [hadd] at h
        cases h
      · rw [hadd] at h
        have hfeeding := feeding_addBuffer _ hadd
        obtain ⟨a, hfeed, hp, ha⟩ := Host.inUse_addManaged hfeeding t.statistics
        have hmanager : ((addBase ((addSource source).run m).1).run m₁).2.manager? slot = some t :=
          (congrArg (fun managers : Array ManagerState => managers[slot]?) hfeeding.managers).trans ht
        dsimp only at h
        rw [Call.run_bind, Manager.run_manageProvider hmanager] at h
        cases h
        exact ⟨a, t.config, congrArg (Option.map ManagerState.config) ht, hfeed, hp, ha.closed,
          ha.released, ha.openCursors, ha.terms⟩

end Replay
