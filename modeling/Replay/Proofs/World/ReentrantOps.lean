import Replay.Proofs.World.Registry

/-!
Client operations with delegates that call back while a cursor is opened, and with hooks that seek,
read, release or panic. Counters and statistics stay exact.
-/
namespace Replay

open Store

variable {α : Type} {r r' : Roster}

/-- Client operations, and those that need scripts which call back, or hooks. -/
inductive ReentrantOp (α : Type) where
  | client (op : ClientOp α)
  | addScripted (script : Script) (reentrantOnOpen : script.ReentrantOnOpen) (provider : Nat)
  | addManaged (statistics : Nat) (hook : Hook) (wraps : hook.Wraps) (provider : Nat)
  | bindOuter (layer outer : Nat)

namespace Store

variable {m : Store α} {h : Nat → Nat} {slot : Nat} {j : Janitor}

theorem outer_bindOuter {other : Nat} {o : Janitor}
    (ho : (((bindOuter slot j).run m).2.script other).outer = some o) :
    (m.script other).outer = some o ∨ o = j := by
  change ((m.scripts.modify slot fun t => { t with outer := t.outer <|> some j }).getD other {}).outer =
    some o at ho
  rw [script, Array.getD_eq_getD_getElem?]
  rw [Array.getD_eq_getD_getElem?, Array.getElem?_modify] at ho
  by_cases hslot : slot = other
  · rw [if_pos hslot] at ho
    cases ht : m.scripts[other]? with
    | none =>
      rw [ht] at ho
      cases ho
    | some t =>
      rw [ht] at ho
      have houter : (t.outer <|> some j) = some o := ho
      cases hbound : t.outer with
      | none =>
        rw [hbound] at houter
        exact .inr (Option.some.inj houter).symm
      | some o' =>
        rw [hbound] at houter
        exact .inl (hbound.trans houter)
  · rw [if_neg hslot] at ho
    exact .inl ho

theorem Invariant.bindOuter (hm : Invariant r h m) (slot : Nat) (hj : j.Under r r.statistics.length) :
    Invariant r h ((Store.bindOuter slot j).run m).2 where
  chains := hm.chains
  feeds := hm.feeds
  janitors := hm.janitors
  covers := by
    refine ⟨hm.covers.lent, fun other o ho => ?_⟩
    rcases outer_bindOuter ho with ho | rfl
    · exact hm.covers.outer other o ho
    · exact hj
  made := hm.made
  managers i t ht := (hm.managers i t ht).mono le_rfl (.refl r)
  countsExact q hq := (hm.countsExact q hq).congr rfl (fun _ _ => rfl) (fun _ _ => rfl) rfl

end Store

namespace World

def performReentrant (w : World α) : ReentrantOp α → World α
  | .client op => w.perform op
  | .addScripted script _ i =>
    match w.providers[i]? with
    | none => w
    | some inner => w.call (addScripted script inner) fun p w =>
      { w with providers := w.providers ++ [p] }
  | .addManaged statistics hook _ i =>
    match w.providers[i]? with
    | none => w
    | some inner =>
      if statistics < w.store.statistics.size then
        w.call (addManaged statistics hook inner) fun p w =>
          { w with providers := w.providers ++ [p] }
      else w
  | .bindOuter i k =>
    match w.providers[i]?, w.providers[k]?.bind Provider.janitor? with
    | some (.scripted slot _ _), some j => w.call (bindOuter slot j) fun _ w => w
    | _, _ => w

def runReentrant (w : World α) (vs : List (ReentrantOp α)) : World α := vs.foldl performReentrant w

theorem runReentrant_append (w : World α) (vs later : List (ReentrantOp α)) :
    w.runReentrant (vs ++ later) = (w.runReentrant vs).runReentrant later := List.foldl_append

variable {w : World α}

theorem Invariant.janitor_under (hw : w.Invariant r 0) {p : Provider} (hp : p ∈ w.providers) {j : Janitor}
    (hj : p.janitor? = some j) : j.Under r r.statistics.length := by
  have hunder := hw.providers p hp
  cases p with
  | managed slot statistics hook inner =>
    cases hj
    exact (Provider.under_managed.mp hunder).2
  | base slot id feed => cases hj
  | scripted slot script inner => cases hj

theorem Invariant.performReentrant (hw : w.Invariant r 0) (v : ReentrantOp α) :
    ∃ r', (w.performReentrant v).Invariant r' 0 := by
  cases v with
  | client op => exact hw.perform op
  | addScripted script reentrantOnOpen i =>
    simp only [World.performReentrant]
    split
    · exact ⟨r, hw⟩
    · rename_i inner hinner
      exact ⟨r, hw.addScripted reentrantOnOpen (List.mem_of_getElem? hinner)⟩
  | addManaged q hook wraps i =>
    simp only [World.performReentrant]
    split
    · exact ⟨r, hw⟩
    · rename_i inner hinner
      split
      · rename_i hq
        exact hw.addManaged hq wraps (List.mem_of_getElem? hinner)
      · exact ⟨r, hw⟩
  | bindOuter i k =>
    simp only [World.performReentrant]
    split
    · rename_i slot script inner j _ hj
      obtain ⟨outer, houter, hj⟩ := Option.bind_eq_some_iff.mp hj
      exact ⟨r, hw.of_store (hw.store.bindOuter slot (hw.janitor_under (List.mem_of_getElem? houter) hj))⟩
    · exact ⟨r, hw⟩

theorem Invariant.runReentrant (hw : w.Invariant r 0) (vs : List (ReentrantOp α)) :
    ∃ r', (w.runReentrant vs).Invariant r' 0 := by
  induction vs generalizing w r with
  | nil => exact ⟨r, hw⟩
  | cons v vs ih =>
    obtain ⟨r', hw'⟩ := hw.performReentrant v
    exact ih hw'

theorem storeOps_performReentrant (w : World α) (v : ReentrantOp α) :
    ∃ ops, StoreOp.run w.store ops = (w.performReentrant v).store := by
  have hnone : ∃ ops, StoreOp.run w.store ops = w.store := ⟨[], rfl⟩
  cases v with
  | client op => exact w.storeOps_perform op
  | addScripted script reentrantOnOpen i =>
    simp only [performReentrant]
    split
    · exact hnone
    · rename_i inner _
      exact ⟨[.addScripted script inner], rfl⟩
  | addManaged q hook wraps i =>
    simp only [performReentrant]
    split
    · exact hnone
    · rename_i inner _
      split
      · exact ⟨[.addManaged q hook inner], rfl⟩
      · exact hnone
  | bindOuter i k =>
    simp only [performReentrant]
    split
    · rename_i slot script inner j _ _
      exact ⟨[.bindOuter slot j], rfl⟩
    · exact hnone

theorem storeOps_runReentrant (w : World α) (vs : List (ReentrantOp α)) :
    ∃ ops, StoreOp.run w.store ops = (w.runReentrant vs).store := by
  induction vs generalizing w with
  | nil => exact ⟨[], rfl⟩
  | cons v vs ih =>
    obtain ⟨ops, hops⟩ := w.storeOps_performReentrant v
    obtain ⟨later, hlater⟩ := ih (w.performReentrant v)
    refine ⟨ops ++ later, ?_⟩
    rw [StoreOp.run_append, hops, hlater]
    rfl

theorem flagsPersist_runReentrant (w : World α) (vs : List (ReentrantOp α)) :
    w.store.FlagsPersist (w.runReentrant vs).store := by
  obtain ⟨ops, hops⟩ := w.storeOps_runReentrant vs
  rw [← hops]
  exact StoreOp.flagsPersist_run w.store ops

end World

end Replay
