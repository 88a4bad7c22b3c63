import Replay.Proofs.Janitor.Lasting
import Replay.Proofs.World.ClientOps

/-!
Every client operation is a run of store operations, so whatever holds of all runs of these holds in all
worlds.
-/
namespace Replay

open Store

variable {α : Type}

namespace World

theorem storeOps_makeBase (m : Store α) (config : Config) (source : Source α) :
    ∃ ops, StoreOp.run m ops = ((makeBase config source).run m).2 := by
  rw [run_makeBase]
  generalize hm : (addSource source).run m = x
  obtain ⟨feed, m₁⟩ := x
  have hadded : StoreOp.run m [.addSource source, .addBuffer config feed] =
      ((Store.addBuffer (switches m₁.endings) config feed).run m₁).2 := by
    rw [StoreOp.run, List.foldl_cons, List.foldl_cons, List.foldl_nil, StoreOp.perform,
      StoreOp.perform, Store.after,
      hm, afterWith_eq]
  dsimp only
  rcases hrun : (Store.addBuffer (switches m₁.endings) config feed).run m₁ with ⟨e | u, m'⟩
  · exact ⟨_, hadded.trans (congrArg Prod.snd hrun)⟩
  · refine ⟨[.addSource source, .addBuffer config feed] ++ [.addBase feed], ?_⟩
    rw [StoreOp.run_append, hadded, hrun]
    rfl

theorem storeOps_completeAll (m : Store α) (manager : Nat) (order : List String) (report : Report) :
    StoreOp.run m (order.map (.complete manager)) =
      ((Manager.completeAll (switches m.endings) manager order report).run m).2 := by
  induction order generalizing m report with
  | nil => rfl
  | cons context order ih =>
    have hends := (suffice_switches m.endings).complete manager context m m.pending_le_endings
    rw [List.map_cons, StoreOp.run, List.foldl_cons]
    refine (ih _ (report.merge ((Manager.complete (switches m.endings) manager context).run m).1)).trans ?_
    rw [StoreOp.perform, afterWith_eq, hends.endings]
    rfl

theorem storeOps_perform (w : World α) (op : ClientOp α) :
    ∃ ops, StoreOp.run w.store ops = (w.perform op).store := by
  have hstep := w.step op
  generalize w.perform op = w' at hstep ⊢
  cases hstep with
  | idle op => exact ⟨[], rfl⟩
  | addStatistics => exact ⟨[.addStatistics], rfl⟩
  | addManager config => exact ⟨[.addManager config], rfl⟩
  | addBase config source w' hsource =>
    rw [← (same_of_source? hsource).1]
    exact storeOps_makeBase w'.store config source
  | addScripted script nonReentrant inner hinner => exact ⟨[.addScripted script inner], rfl⟩
  | addManaged q inner hinner hq => exact ⟨[.addManaged q .plain inner], rfl⟩
  | openCursor p hp => exact ⟨[.openCursor p], rfl⟩
  | cursorOp t c hc => exact ⟨[.cursorOp c t], rfl⟩
  | drop c hc => exact ⟨[.drop c], rfl⟩
  | close p hp => exact ⟨[.endProvider p .close], rfl⟩
  | release p hp => exact ⟨[.endProvider p .release], rfl⟩
  | manage manager context t source w' ht hsource =>
    rw [← (same_of_source? hsource).1]
    exact ⟨[.addSource source, .manage manager ((addSource source).run w'.store).1 context], rfl⟩
  | manageProvider manager context inner hinner => exact ⟨[.manageProvider manager inner context], rfl⟩
  | complete manager context => exact ⟨[.complete manager context], rfl⟩
  | dispose manager order => exact ⟨_, storeOps_completeAll w.store manager order .skipped⟩

theorem storeOps_run (w : World α) (xs : List (ClientOp α)) :
    ∃ ops, StoreOp.run w.store ops = (w.run xs).store := by
  induction xs generalizing w with
  | nil => exact ⟨[], rfl⟩
  | cons op xs ih =>
    obtain ⟨ops, hops⟩ := w.storeOps_perform op
    obtain ⟨later, hlater⟩ := ih (w.perform op)
    refine ⟨ops ++ later, ?_⟩
    rw [StoreOp.run_append, hops, hlater]
    rfl

theorem flagsPersist_run (w : World α) (xs : List (ClientOp α)) : w.store.FlagsPersist (w.run xs).store := by
  obtain ⟨ops, hops⟩ := w.storeOps_run xs
  rw [← hops]
  exact StoreOp.flagsPersist_run w.store ops

theorem orderly_run {w : World α} (hw : w.store.Orderly) (xs : List (ClientOp α)) :
    (w.run xs).store.Orderly := by
  obtain ⟨ops, hops⟩ := w.storeOps_run xs
  rw [← hops]
  exact StoreOp.orderly_run ops hw

end World
end Replay
