import Replay.Proofs.Accounts.Balance
import Replay.Proofs.Contexts
import Replay.Proofs.Janitor.StoreOps

/-!
Client operations, in any order: making statistics, managers and providers, opening, using and dropping
cursors, closing and releasing providers. Clients refer to what they hold by its index. A cursor given
to a source is no longer held. Hooks are plain, and scripted layers may fail or panic but do not call
back; `ReentrantOp` lifts both restrictions.
-/
namespace Replay

open Store

variable {α β : Type}

/-- A source that reads from no cursor, or one built on a cursor that is held. -/
inductive SourceSpec (α : Type) where
  | ready (source : Source α) (free : source.cursor? = none)
  | chain (cursor : Nat)

inductive ClientOp (α : Type) where
  | addStatistics
  | addManager (config : Config)
  | addBase (config : Config) (spec : SourceSpec α)
  | addScripted (script : Script) (nonReentrant : script.NonReentrant) (provider : Nat)
  | addManaged (statistics provider : Nat)
  | openCursor (provider : Nat)
  | cursorOp (cursor : Nat) (cursorOp : CursorOp)
  | drop (cursor : Nat)
  | close (provider : Nat)
  | release (provider : Nat)
  | manage (manager : Nat) (context : String) (spec : SourceSpec α)
  | manageProvider (manager : Nat) (context : String) (provider : Nat)
  | complete (manager : Nat) (context : String)
  | dispose (manager : Nat) (order : List String)

def ClientOp.Makes : ClientOp α → Prop
  | .addBase .. | .addScripted .. | .addManaged .. | .manage .. | .manageProvider .. => True
  | _ => False

structure Registration where
  manager : Nat
  context : String
  provider : Provider

/-- The store, and what clients hold. -/
structure World (α : Type) where
  store : Store α := {}
  providers : List Provider := []
  cursors : List Cursor := []
  registrations : List Registration := []

namespace World

def janitors (w : World α) : List Janitor := w.providers.filterMap Provider.janitor?

def call (w : World α) (f : Call α β) (keep : β → World α → World α) : World α :=
  keep (f.run w.store).1 { w with store := (f.run w.store).2 }

def source? (w : World α) : SourceSpec α → Option (Source α × World α)
  | .ready source _ => some (source, w)
  | .chain i => w.cursors[i]?.map fun c => (.chain c, { w with cursors := w.cursors.eraseIdx i })

def makeBase (config : Config) (source : Source α) : Call α (Option Provider) := do
  let feed ← addSource source
  match ← withSwitches fun s => addBuffer s config feed with
  | .error _ => return none
  | .ok () => return some (← addBase feed)

def makeManaged (manager : Nat) (context : String) (source : Source α) :
    Call α (Option Provider) := do
  let feed ← addSource source
  let made ← withSwitches fun s => Manager.manage s manager feed context
  return made.toOption.join

theorem run_makeBase (config : Config) (source : Source α) (m : Store α) :
    (makeBase config source).run m =
      match (addBuffer (switches ((addSource source).run m).2.endings) config
        ((addSource source).run m).1).run ((addSource source).run m).2 with
      | (.error _, m') => (none, m')
      | (.ok _, m') => (some ((addBase ((addSource source).run m).1).run m').1,
          ((addBase ((addSource source).run m).1).run m').2) := by
  simp only [makeBase, withSwitches, Call.run_bind, Call.run_get]
  rcases (addBuffer (switches ((addSource source).run m).2.endings) config
    ((addSource source).run m).1).run ((addSource source).run m).2 with ⟨e | u, m'⟩
  · rfl
  · rfl

theorem run_makeManaged {manager : Nat} {t : ManagerState} {m : Store α}
    (ht : m.manager? manager = some t) (context : String) (source : Source α) :
    (makeManaged manager context source).run m =
      match (addBuffer (switches ((addSource source).run m).2.endings) t.config
        ((addSource source).run m).1).run ((addSource source).run m).2 with
      | (.error _, m') => (none, m')
      | (.ok _, m') => (do
          let base ← addBase ((addSource source).run m).1
          Manager.manageProvider manager base context : Call α (Option Provider)).run m' := by
  rw [makeManaged, Call.run_bind, Call.run_bind, Call.run_withSwitches, Call.run_pure,
    Manager.run_manage (m := ((addSource source).run m).2) ht]
  rcases (addBuffer (switches ((addSource source).run m).2.endings) t.config
    ((addSource source).run m).1).run ((addSource source).run m).2 with ⟨e | u, m'⟩
  · rfl
  · rfl

theorem run_makeManaged_none {manager : Nat} {m : Store α} (ht : m.manager? manager = none)
    (context : String) (source : Source α) :
    (makeManaged manager context source).run m = (none, ((addSource source).run m).2) := by
  rw [makeManaged, Call.run_bind, Call.run_bind, Call.run_withSwitches,
    Manager.run_manage_none (m := ((addSource source).run m).2) ht]
  rfl

def returned (manager : Nat) (context : String) (p : Option Provider) (w : World α) : World α :=
  { w with
    providers := w.providers ++ p.toList
    registrations := w.registrations ++ p.toList.map (⟨manager, context, ·⟩) }

def cursorOp (w : World α) (i : Nat) (t : CursorOp) : Reply α × World α :=
  match w.cursors[i]? with
  | none => (.refused, w)
  | some c =>
    let ((r, c), store) := (t.perform c).run w.store
    (r, { w with store, cursors := w.cursors.set i c })

/-- An operation whose index refers to nothing changes nothing. -/
def perform (w : World α) : ClientOp α → World α
  | .addStatistics => w.call newStatistics fun _ w => w
  | .addManager config => w.call (addManager config) fun _ w => w
  | .addBase config spec =>
    match w.source? spec with
    | none => w
    | some (source, w) => w.call (makeBase config source) fun p w =>
      { w with providers := w.providers ++ p.toList }
  | .addScripted script _ i =>
    match w.providers[i]? with
    | none => w
    | some inner => w.call (addScripted script inner) fun p w =>
      { w with providers := w.providers ++ [p] }
  | .addManaged statistics i =>
    match w.providers[i]? with
    | none => w
    | some inner =>
      if statistics < w.store.statistics.size then
        w.call (addManaged statistics .plain inner) fun p w =>
          { w with providers := w.providers ++ [p] }
      else w
  | .openCursor i =>
    match w.providers[i]? with
    | none => w
    | some p => w.call (withSwitches fun s => p.openCursor s) fun r w =>
      { w with cursors := w.cursors ++ r.toOption.toList }
  | .cursorOp i t => (w.cursorOp i t).2
  | .drop i =>
    match w.cursors[i]? with
    | none => w
    | some c => w.call (withSwitches fun s => c.drop s) fun _ w =>
      { w with cursors := w.cursors.eraseIdx i }
  | .close i =>
    match w.providers[i]? with
    | none => w
    | some p => w.call (withSwitches fun s => p.close s none) fun _ w => w
  | .release i =>
    match w.providers[i]? with
    | none => w
    | some p => w.call (withSwitches fun s => p.release s none) fun _ w => w
  | .manage manager context spec =>
    match w.store.manager? manager, w.source? spec with
    | some _, some (source, w) =>
      w.call (makeManaged manager context source) (returned manager context)
    | _, _ => w
  | .manageProvider manager context i =>
    match w.providers[i]? with
    | none => w
    | some inner =>
      w.call (Manager.manageProvider manager inner context) (returned manager context)
  | .complete manager context =>
    w.call (withSwitches fun s => Manager.complete s manager context) fun _ w => w
  | .dispose manager order =>
    w.call (withSwitches fun s => Manager.completeAll s manager order .skipped) fun _ w => w

def run (w : World α) (ops : List (ClientOp α)) : World α := ops.foldl perform w

variable {w w' : World α}

theorem same_of_source? {spec : SourceSpec α} {source : Source α}
    (h : w.source? spec = some (source, w')) :
    w'.store = w.store ∧ w'.providers = w.providers ∧ w'.registrations = w.registrations := by
  cases spec with
  | ready source free =>
    cases h
    exact ⟨rfl, rfl, rfl⟩
  | chain i =>
    obtain ⟨c, -, h⟩ := Option.map_eq_some_iff.mp h
    cases h
    exact ⟨rfl, rfl, rfl⟩

/-- The effect of an operation, case by case. -/
inductive Step (w : World α) : ClientOp α → World α → Prop where
  | idle (op : ClientOp α) : Step w op w
  | addStatistics : Step w .addStatistics (w.call newStatistics fun _ w => w)
  | addManager (config : Config) :
    Step w (.addManager config) (w.call (Store.addManager config) fun _ w => w)
  | addBase (config : Config) {spec : SourceSpec α} (source : Source α) (w' : World α)
      (hsource : w.source? spec = some (source, w')) :
    Step w (.addBase config spec) (w'.call (makeBase config source) fun p w =>
      { w with providers := w.providers ++ p.toList })
  | addScripted (script : Script) (nonReentrant : script.NonReentrant) {i : Nat} (inner : Provider)
      (hinner : w.providers[i]? = some inner) :
    Step w (.addScripted script nonReentrant i) (w.call (Store.addScripted script inner) fun p w =>
      { w with providers := w.providers ++ [p] })
  | addManaged (q : Nat) {i : Nat} (inner : Provider) (hinner : w.providers[i]? = some inner)
      (hq : q < w.store.statistics.size) :
    Step w (.addManaged q i) (w.call (Store.addManaged q .plain inner) fun p w =>
      { w with providers := w.providers ++ [p] })
  | openCursor {i : Nat} (p : Provider) (hp : w.providers[i]? = some p) :
    Step w (.openCursor i) (w.call (withSwitches fun s => p.openCursor s) fun r w =>
      { w with cursors := w.cursors ++ r.toOption.toList })
  | cursorOp (t : CursorOp) {i : Nat} (c : Cursor) (hc : w.cursors[i]? = some c) :
    Step w (.cursorOp i t) { w with
      store := ((t.perform c).run w.store).2
      cursors := w.cursors.set i ((t.perform c).run w.store).1.2 }
  | drop {i : Nat} (c : Cursor) (hc : w.cursors[i]? = some c) :
    Step w (.drop i) (w.call (withSwitches fun s => c.drop s) fun _ w =>
      { w with cursors := w.cursors.eraseIdx i })
  | close {i : Nat} (p : Provider) (hp : w.providers[i]? = some p) :
    Step w (.close i) (w.call (withSwitches fun s => p.close s none) fun _ w => w)
  | release {i : Nat} (p : Provider) (hp : w.providers[i]? = some p) :
    Step w (.release i) (w.call (withSwitches fun s => p.release s none) fun _ w => w)
  | manage (manager : Nat) (context : String) {spec : SourceSpec α} (t : ManagerState) (source : Source α)
      (w' : World α) (ht : w.store.manager? manager = some t)
      (hsource : w.source? spec = some (source, w')) :
    Step w (.manage manager context spec)
      (w'.call (makeManaged manager context source) (returned manager context))
  | manageProvider (manager : Nat) (context : String) {i : Nat} (inner : Provider)
      (hinner : w.providers[i]? = some inner) :
    Step w (.manageProvider manager context i)
      (w.call (Manager.manageProvider manager inner context) (returned manager context))
  | complete (manager : Nat) (context : String) : Step w (.complete manager context)
      (w.call (withSwitches fun s => Manager.complete s manager context) fun _ w => w)
  | dispose (manager : Nat) (order : List String) : Step w (.dispose manager order)
      (w.call (withSwitches fun s => Manager.completeAll s manager order .skipped) fun _ w => w)

theorem step (w : World α) (op : ClientOp α) : w.Step op (w.perform op) := by
  cases op with
  | addStatistics => exact .addStatistics
  | addManager config => exact .addManager config
  | complete manager context => exact .complete manager context
  | dispose manager order => exact .dispose manager order
  | addBase config spec =>
    simp only [perform]
    split
    · exact .idle _
    · exact .addBase config _ _ ‹_›
  | addScripted script nonReentrant i =>
    simp only [perform]
    split
    · exact .idle _
    · exact .addScripted script nonReentrant _ ‹_›
  | addManaged q i =>
    simp only [perform]
    split
    · exact .idle _
    · split
      · exact .addManaged q _ ‹_› ‹_›
      · exact .idle _
  | openCursor i =>
    simp only [perform]
    split
    · exact .idle _
    · exact .openCursor _ ‹_›
  | cursorOp i t =>
    simp only [perform, World.cursorOp]
    split
    · exact .idle _
    · exact .cursorOp t _ ‹_›
  | drop i =>
    simp only [perform]
    split
    · exact .idle _
    · exact .drop _ ‹_›
  | close i =>
    simp only [perform]
    split
    · exact .idle _
    · exact .close _ ‹_›
  | release i =>
    simp only [perform]
    split
    · exact .idle _
    · exact .release _ ‹_›
  | manage manager context spec =>
    simp only [perform]
    split
    · exact .manage manager context _ _ _ ‹_› ‹_›
    · exact .idle _
  | manageProvider manager context i =>
    simp only [perform]
    split
    · exact .idle _
    · exact .manageProvider manager context _ ‹_›

theorem Step.providers {op : ClientOp α} (h : w.Step op w') (hmakes : ¬op.Makes) :
    w'.providers = w.providers := by
  cases h with
  | addBase | addScripted | addManaged | manage | manageProvider => exact absurd trivial hmakes
  | _ => rfl

theorem providers_run {later : List (ClientOp α)} (h : ∀ op ∈ later, ¬op.Makes) :
    (w.run later).providers = w.providers := by
  induction later generalizing w with
  | nil => rfl
  | cons op later ih =>
    exact (ih fun op hop => h op (List.mem_cons_of_mem _ hop)).trans
      ((w.step op).providers (h op List.mem_cons_self))

end World
end Replay
