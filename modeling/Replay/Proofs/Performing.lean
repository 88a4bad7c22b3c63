import Replay.Proofs.Carrying
import Replay.Proofs.Janitor.StoreOps

/-!
Relations on stores that store operations respect. Teardown and opening go through switches, and cursor
operations read; it remains to check the operations that make something or address a feed by its number.
-/
namespace Replay

open Store

variable {α : Type} {R : Feeds α → Feeds α → Prop} {S : Store α → Store α → Prop}

theorem Store.Persists.retire (m : Store α) (r : Reach) : m.Persists (m.after (Store.retire r)) := by
  have hflags : m.FlagsMono (m.after (Store.retire r)) := (ends_retire r m le_rfl).flagsMono
  exact {
    closed := hflags.closed
    released := hflags.released
    basesSize := le_rfl
    bases := fun _ => id
    scriptsSize := le_rfl
    calls := fun _ _ => le_rfl }

namespace StoreOp

/-- The steps of an operation that the switches do not cover are in the relation. -/
def Allowed (R : Feeds α → Feeds α → Prop) (S : Store α → Store α → Prop) (m : Store α) : StoreOp α → Prop
  | addBuffer config feed => Feeds.AllowsSource R feed ∧ ∀ hint b, Buffer.ofConfig config hint = .ok b →
      ∀ s : Feeds α, R s (s.setBuffer feed (some b))
  | addSource source => R m.feeds (m.feeds.add source).2
  | pull feed => R m.feeds (Feeds.draw feed m.feeds).2
  | hasNext feed offset => R m.feeds
      (m.feeds.onBuffer feed (Buffer.hasNext (Feeds.tap Feeds.draw feed) offset)).2
  | bucketFor feed offset => R m.feeds
      (m.feeds.onBuffer feed (Buffer.bucketFor (Feeds.tap Feeds.draw feed) offset)).2
  | closeSource feed => Feeds.AllowsSource R feed
  | settle held => ∀ feed ∉ (m.throughChains m.feeds.cells.size held).feeds, Feeds.AllowsSource R feed
  | d@(closeBuffer ..) | d@addStatistics | d@(addManaged ..) | d@(addJanitor ..) | d@(addManager _)
  | d@(manageProvider ..) | d@(manage ..) => S m (d.perform m)
  | complete .. | dispose _ => AllowsForget S
  | _ => True

theorem within_perform {m : Store α} {d : StoreOp α} (hd : d.Allowed R S m)
    (hw : ∀ left, (switches left : Switches α).Within R S) (hreads : Feeds.Reads R) : S m (d.perform m) := by
  have hS := (hw 0).toSteps
  have hwith : ∀ {β : Type} {f : Switches α → Call α β}, (∀ w, w.Within R S → (f w).Within S) →
      S m (m.afterWith f) := fun hf => Call.Within.withSwitches (fun left => hf _ (hw left)) m
  cases d with
  | addSource source => exact hS.feeds hd
  | addBuffer config feed => exact hwith fun w hw => hw.addBuffer hd.1 hd.2
  | addBase feed => exact hS.addBase feed m
  | addScripted script inner => exact hS.aside ⟨rfl, rfl, rfl, rfl, .addScript⟩
  | bindOuter slot outer => exact hS.onScript slot (fun t ending => by cases ending <;> exact le_rfl) m
  | addProviderId => exact hS.newProviderId m
  | complete manager context => exact hwith fun w hw => hw.complete hd manager context
  | dispose manager => exact hwith fun w hw => hw.dispose hd manager
  | openCursor p => exact hwith fun w hw => hw.openCursor hreads p
  | close j => exact hwith fun w hw => hw.close j
  | release j => exact hwith fun w hw => hw.demand j
  | releaseCursor j c => exact hwith fun w hw => hw.releaseCursor j (hw.releaseLayers c)
  | endProvider p ending =>
    cases ending with
    | close => exact hwith fun w hw => hw.closeProvider none p
    | release => exact hwith fun w hw => hw.releaseProvider none p
  | pull feed => exact hS.feeds hd
  | hasNext feed offset => exact hS.feeds hd
  | bucketFor feed offset => exact hS.feeds hd
  | cursorOp c t => exact t.within hreads hw c m
  | drop c => exact hwith fun w hw => hw.dropLayers _ c
  | closeSource feed => exact hwith fun w hw => hw.closeSource hd
  | settle held =>
    rw [perform, afterWith_eq]
    refine hS.next ((hw m.endings).dropUnreached hd m.feeds.cells.size m) ?_
    exact hS.aside ⟨rfl, rfl, Array.size_mapIdx, rfl, .retire _ _⟩
  | closeBuffer | addStatistics | addManaged | addJanitor | addManager | manageProvider | manage =>
    exact hd

theorem unrestricted_perform (hR : Feeds.Unrestricted R) (m : Store α) (d : StoreOp α)
    (hadd : ∀ source, d = .addSource source → R m.feeds (m.feeds.add source).2) :
    R m.feeds (d.perform m).feeds := by
  have hmake : ∀ (feed : Nat) (b : Buffer α) (s : Feeds α), R s (s.setBuffer feed (some b)) :=
    fun feed b s => hR.modify feed _ s
  refine within_perform (R := R) (S := OnFeeds R) ?_ hR.carries hR.reads
  cases d with
  | complete manager context => exact hR.steps.forgets
  | dispose manager => exact hR.steps.forgets
  | addSource source => exact hadd source rfl
  | addBuffer config feed => exact ⟨hR.allowsSource feed, fun _ b _ => hmake feed b⟩
  | addManager config => exact hR.steps.addManager config m
  | manageProvider manager inner context => exact hR.steps.manageProvider manager inner context m
  | manage manager feed context =>
    rw [Allowed, perform, afterWith_eq]
    exact (hR.carries m.endings).manage (hR.allowsSource feed) (fun _ _ b _ => hmake feed b) manager context m
  | pull feed => exact hR.draws feed m.feeds
  | hasNext feed offset => exact hR.onBuffer (fun _ hI _ _ => Buffer.hasNext_preserves hI offset) m.feeds
  | bucketFor feed offset => exact hR.onBuffer (fun _ hI _ _ => Buffer.bucketFor_preserves hI offset) m.feeds
  | closeSource feed => exact hR.allowsSource feed
  | closeBuffer feed =>
    rw [Allowed, perform, afterWith_eq]
    exact (hR.carries (m.endings + 1)).closeBuffer feed m
  | settle held => exact fun feed _ => hR.allowsSource feed
  | addStatistics | addManaged | addJanitor => exact hR.refl m.feeds
  | _ => trivial

theorem size_perform (m : Store α) {d : StoreOp α} (hd : ∀ source, d ≠ .addSource source) :
    (d.perform m).feeds.cells.size = m.feeds.cells.size :=
  unrestricted_perform Feeds.unrestricted_size m d fun source hsource => absurd hsource (hd source)

end StoreOp

end Replay
