import Replay.Proofs.Towers.CursorOps
import Replay.Proofs.World.ClientOps
import Replay.Session.View

/-!
Runs of operations on a managed provider and its cursors. A managed provider around it gives the same
replies in every run.
-/
namespace Replay

open Store

variable {α : Type}

/-- Operations on a provider and its cursors. -/
inductive ProviderOp where
  | openCursor
  | cursorOp (cursor : Nat) (cursorOp : CursorOp)
  | drop (cursor : Nat)
  | close
  | release

def ProviderOp.toClientOp : ProviderOp → ClientOp α
  | openCursor => .openCursor 0
  | cursorOp i t => .cursorOp i t
  | drop i => .drop i
  | close => .close 0
  | release => .release 0

/-- The reply to an operation; of a report only whether it was performed. -/
inductive ProviderReply (α : Type) where
  | opened (r : Outcome StreamError Unit)
  | reply (r : Reply α)
  | ended (performed : Bool)
  | none

namespace World

variable {r : Roster} {o j : Janitor} {w w' : World α}

def runProvider (w : World α) (xs : List ProviderOp) : World α := w.run (xs.map ProviderOp.toClientOp)

/-- The reply to the next operation on the only provider. -/
def providerReply (w : World α) : ProviderOp → ProviderReply α
  | .openCursor =>
    match w.providers[0]? with
    | none => .none
    | some p => .opened (((withSwitches fun s => p.openCursor s).run w.store).1.map fun _ => ())
  | .cursorOp i t => .reply (w.cursorOp i t).1
  | .drop _ => .none
  | .close =>
    match w.providers[0]?.bind Provider.janitor? with
    | none => .none
    | some j => .ended ((withSwitches fun s => s.close j).run w.store).1.performed
  | .release =>
    match w.providers[0]?.bind Provider.janitor? with
    | none => .none
    | some j => .ended ((withSwitches fun s => s.demand j).run w.store).1.performed

theorem call_close (w : World α) (j : Janitor) :
    (w.call (withSwitches fun s => j.provider.close s none) fun _ w => w) =
    { w with store := ((withSwitches fun s => s.close j).run w.store).2 } := by
  rw [call, Call.run_withSwitches, Call.run_withSwitches, Janitor.run_close_provider]

theorem call_release (w : World α) (j : Janitor) :
    (w.call (withSwitches fun s => j.provider.release s none) fun _ w => w) =
      { w with store := ((withSwitches fun s => s.demand j).run w.store).2 } := by
  rw [call, Call.run_withSwitches, Call.run_withSwitches, Janitor.run_release_provider]

def views (w : World α) : List (Option View) := w.cursors.map fun c => (Object.cursor c).view w.store

/-- A world of a provider around the only one of `w'`, with the same cursors. -/
structure Stacked (r : Roster) (o j : Janitor) (w w' : World α) : Prop where
  store : Store.Stacked r o j w.store w'.store
  providers : w.providers = [o.provider]
  providers' : w'.providers = [j.provider]
  cursors : ∃ pairs : List (Cursor × Cursor), w.cursors = pairs.map Prod.fst ∧
    w'.cursors = pairs.map Prod.snd ∧ ∀ pair ∈ pairs, pair.1.Around r o j pair.2

namespace Stacked

theorem views (h : Stacked r o j w w') : w.views = w'.views := by
  obtain ⟨pairs, hcursors, hcursors', haround⟩ := h.cursors
  rw [World.views, World.views, hcursors, hcursors', List.map_map, List.map_map]
  refine List.map_congr_left fun pair hpair => ?_
  obtain ⟨c, d⟩ := pair
  obtain ⟨released, inner, hd, hc, -⟩ := (haround _ hpair).around
  dsimp only at hd hc
  subst hd hc
  have hsize : inner.size w.store.feeds = inner.size w'.store.feeds := by
    rw [Cursor.size, Cursor.size, h.store.cells.buffer?]
  exact congrArg (fun size => some
    (View.cursor inner.position size released inner.isClosed inner.provider)) hsize

theorem replace (h : Stacked r o j w w') {m m' : Store α} (hm : Store.Stacked r o j m m') :
    Stacked r o j { w with store := m } { w' with store := m' } :=
  ⟨hm, h.providers, h.providers', h.cursors⟩

variable (ho : o.Over r j) (hr : r.Sorted)

include ho hr

theorem cursorOp (h : Stacked r o j w w') (i : Nat) (t : CursorOp) :
    (w.cursorOp i t).1 = (w'.cursorOp i t).1 ∧ Stacked r o j (w.cursorOp i t).2 (w'.cursorOp i t).2 := by
  obtain ⟨pairs, hcursors, hcursors', haround⟩ := h.cursors
  rw [World.cursorOp, World.cursorOp, hcursors, hcursors', List.getElem?_map, List.getElem?_map]
  cases hpair : pairs[i]? with
  | none => exact ⟨rfl, h⟩
  | some pair =>
    obtain ⟨c, d⟩ := pair
    obtain ⟨hreply, hturned, hstore⟩ := h.store.take ho hr (haround _ (List.mem_of_getElem? hpair)) t
    refine ⟨hreply, hstore, h.providers, h.providers', pairs.set i
      (((t.perform c).run w.store).1.2, ((t.perform d).run w'.store).1.2), ?_, ?_, fun pair hmem => ?_⟩
    · rw [List.map_set]
      rfl
    · rw [List.map_set]
      rfl
    · rcases List.mem_or_eq_of_mem_set hmem with hmem | rfl
      · exact haround _ hmem
      · exact hturned

theorem drop (h : Stacked r o j w w') (i : Nat) :
    Stacked r o j (w.perform (.drop i)) (w'.perform (.drop i)) := by
  obtain ⟨pairs, hcursors, hcursors', haround⟩ := h.cursors
  rw [perform, perform, hcursors, hcursors', List.getElem?_map, List.getElem?_map]
  cases hpair : pairs[i]? with
  | none => exact h
  | some pair =>
    have hstore := h.store.drop ho hr (haround _ (List.mem_of_getElem? hpair))
    refine ⟨hstore, h.providers, h.providers', pairs.eraseIdx i, ?_, ?_, fun pair hmem =>
      haround _ (List.mem_of_mem_eraseIdx hmem)⟩
    · exact (congrArg (List.eraseIdx · i) hcursors).trans (List.eraseIdx_map ..)
    · exact (congrArg (List.eraseIdx · i) hcursors').trans (List.eraseIdx_map ..)

theorem openCursor (h : Stacked r o j w w') :
    w.providerReply .openCursor = w'.providerReply .openCursor ∧
      Stacked r o j (w.perform (.openCursor 0)) (w'.perform (.openCursor 0)) := by
  obtain ⟨pairs, hcursors, hcursors', haround⟩ := h.cursors
  obtain ⟨hopened, hstore⟩ := h.store.openCursor ho hr
  simp only [providerReply, perform, h.providers, h.providers', List.getElem?_cons_zero]
  rcases hopened with ⟨stop, hx, hx'⟩ | ⟨c, d, hcd, hx, hx'⟩
  · rw [call, call, hx, hx']
    refine ⟨rfl, hstore, h.providers, h.providers', pairs, ?_, ?_, haround⟩
    · exact (List.append_nil _).trans hcursors
    · exact (List.append_nil _).trans hcursors'
  · rw [call, call, hx, hx']
    refine ⟨rfl, hstore, h.providers, h.providers', pairs ++ [(c, d)], ?_, ?_, fun pair hmem => ?_⟩
    · rw [List.map_append, ← hcursors]
      rfl
    · rw [List.map_append, ← hcursors']
      rfl
    · rcases List.mem_append.mp hmem with hmem | hmem
      · exact haround _ hmem
      · exact List.mem_singleton.mp hmem ▸ hcd

theorem close (h : Stacked r o j w w') :
    w.providerReply .close = w'.providerReply .close ∧
      Stacked r o j (w.perform (.close 0)) (w'.perform (.close 0)) := by
  obtain ⟨hperformed, hstore⟩ := h.store.close ho hr
  simp only [providerReply, perform, h.providers, h.providers', List.getElem?_cons_zero]
  rw [call_close, call_close]
  exact ⟨congrArg ProviderReply.ended hperformed, h.replace hstore⟩

theorem release (h : Stacked r o j w w') :
    w.providerReply .release = w'.providerReply .release ∧
      Stacked r o j (w.perform (.release 0)) (w'.perform (.release 0)) := by
  obtain ⟨hperformed, hstore⟩ := h.store.demand ho hr
  simp only [providerReply, perform, h.providers, h.providers', List.getElem?_cons_zero]
  rw [call_release, call_release]
  exact ⟨congrArg ProviderReply.ended hperformed, h.replace hstore⟩

/-- Every operation has the same reply in both worlds. -/
theorem step (h : Stacked r o j w w') (x : ProviderOp) :
    w.providerReply x = w'.providerReply x ∧
      Stacked r o j (w.perform x.toClientOp) (w'.perform x.toClientOp) := by
  cases x with
  | openCursor => exact h.openCursor ho hr
  | cursorOp i t =>
    obtain ⟨hreply, hturned⟩ := h.cursorOp ho hr i t
    exact ⟨congrArg ProviderReply.reply hreply, hturned⟩
  | drop i => exact ⟨rfl, h.drop ho hr i⟩
  | close => exact h.close ho hr
  | release => exact h.release ho hr

theorem runProvider (h : Stacked r o j w w') (xs : List ProviderOp) :
    Stacked r o j (w.runProvider xs) (w'.runProvider xs) := by
  induction xs generalizing w w' with
  | nil => exact h
  | cons x xs ih => exact ih (h.step ho hr x).2

end Stacked
end World

end Replay
