import Replay.Proofs.Feeds
import Replay.Proofs.Janitor.Advancing
import Replay.Proofs.Reading
import Replay.Proofs.Shared.SharedOps
import Replay.Reach

/-!
Relations on feeds and stores that teardown respects. Closing, releasing and dropping go through
janitors, providers and cursors; they change feeds only by appending to the log and by closing buffers.
A relation that holds for these two steps holds for every teardown call, and for making and opening if
reading respects it as well.
-/
namespace Replay

open Store

variable {α β γ : Type}

/-- A relation on feeds that is closed under appending to the log. -/
structure Feeds.Steps (R : Feeds α → Feeds α → Prop) : Prop where
  refl : ∀ s, R s s
  trans : ∀ {s s' s''}, R s s' → R s' s'' → R s s''
  note : ∀ e s, R s (s.note e)

structure Feeds.Reads (R : Feeds α → Feeds α → Prop) : Prop where
  hasNext : ∀ (c : Cursor) (s : Feeds α), R s (c.hasNext s).2
  next : ∀ (c : Cursor) (s : Feeds α), R s (c.next s).2.2

def Feeds.AllowsOthers (R : Feeds α → Feeds α → Prop) (feed : Nat) : Prop :=
  ∀ other ≠ feed, ∀ (f : Feed α → Feed α) (s : Feeds α), R s (s.modify other f)

/-- The source of a feed, and its tally, may be changed in any way. -/
structure Feeds.AllowsSource (R : Feeds α → Feeds α → Prop) (feed : Nat) : Prop where
  setSource : ∀ (source : Option (Source α)) (s : Feeds α), R s (s.setSource feed source)
  count : ∀ (f : Tally → Tally) (s : Feeds α), R s (s.count feed f)

theorem Feeds.allowsSource_true (feed : Nat) : Feeds.AllowsSource (fun _ _ : Feeds α => True) feed :=
  ⟨fun _ _ => trivial, fun _ _ => trivial⟩

theorem Feeds.AllowsOthers.allowsSource {R : Feeds α → Feeds α → Prop} {feed other : Nat}
    (hR : Feeds.AllowsOthers R feed)
    (hne : other ≠ feed) : Feeds.AllowsSource R other where
  setSource _ s := hR other hne _ s
  count _ s := hR other hne _ s

namespace Store

/-- Flags stay set, call counts of scripted layers do not decrease, and no state is removed. -/
structure Persists (m m' : Store α) : Prop where
  closed : ∀ slot, (m.janitor slot).closed → (m'.janitor slot).closed
  released : ∀ slot, (m.janitor slot).released → (m'.janitor slot).released
  basesSize : m.closedBases.size ≤ m'.closedBases.size
  bases : ∀ slot, m.baseClosed slot → m'.baseClosed slot
  scriptsSize : m.scripts.size ≤ m'.scripts.size
  calls : ∀ slot ending, (m.script slot).calls ending ≤ (m'.script slot).calls ending

namespace Persists

variable {m m' m'' : Store α}

theorem refl (m : Store α) : m.Persists m := by
  constructor <;> simp

theorem of_eq (hj : m'.janitors = m.janitors) (hb : m'.closedBases = m.closedBases)
    (hs : m'.scripts = m.scripts) : m.Persists m' := by
  constructor <;> simp [janitor, baseClosed, script, hj, hb, hs]

theorem trans (h : m.Persists m') (h' : m'.Persists m'') : m.Persists m'' where
  closed slot := h'.closed slot ∘ h.closed slot
  released slot := h'.released slot ∘ h.released slot
  basesSize := h.basesSize.trans h'.basesSize
  bases slot := h'.bases slot ∘ h.bases slot
  scriptsSize := h.scriptsSize.trans h'.scriptsSize
  calls slot ending := (h.calls slot ending).trans (h'.calls slot ending)

theorem change {f : JanitorState → JanitorState} {slot : Nat} (h : m.FlagsMono (m.change slot f)) :
    m.Persists (m.change slot f) where
  closed := h.closed
  released := h.released
  basesSize := le_rfl
  bases _ := id
  scriptsSize := le_rfl
  calls _ _ := le_rfl

theorem onScript {f : ScriptState → ScriptState} (hf : ∀ t ending, t.calls ending ≤ (f t).calls ending)
    (slot : Nat) : m.Persists { m with scripts := m.scripts.modify slot f } where
  closed _ := id
  released _ := id
  basesSize := le_rfl
  bases _ := id
  scriptsSize := by simp
  calls other ending := by
    simp only [script, Array.getD_eq_getD_getElem?, Array.getElem?_modify]
    split
    · cases m.scripts[other]? with
      | none => rfl
      | some t => exact hf t ending
    · rfl

theorem addScript : m.Persists { m with scripts := m.scripts.push {} } where
  closed _ := id
  released _ := id
  basesSize := le_rfl
  bases _ := id
  scriptsSize := by simp
  calls slot ending := by
    simp only [script, Array.getD_eq_getD_getElem?, Array.getElem?_push]
    split
    · rename_i hslot
      rw [Array.getElem?_eq_none hslot.ge]
      rfl
    · rfl

theorem closeBase (slot : Nat) :
    m.Persists { m with closedBases := m.closedBases.setIfInBounds slot true } where
  closed _ := id
  released _ := id
  basesSize := by simp
  scriptsSize := le_rfl
  bases other h := by
    simp only [baseClosed, Array.getD_eq_getD_getElem?, Array.getElem?_setIfInBounds] at h ⊢
    split
    · split
      · rfl
      · rename_i hslot hlt
        subst hslot
        rw [Array.getElem?_eq_none (Nat.le_of_not_lt hlt)] at h
        cases h
    · exact h
  calls _ _ := le_rfl

theorem addBase : m.Persists { m with
    closedBases := m.closedBases.push false, nextProvider := m.nextProvider + 1 } where
  closed _ := id
  released _ := id
  basesSize := by simp
  scriptsSize := le_rfl
  bases slot h := by
    simp only [baseClosed, Array.getD_eq_getD_getElem?, Array.getElem?_push] at h ⊢
    split
    · rename_i hslot
      rw [Array.getElem?_eq_none hslot.ge] at h
      cases h
    · exact h
  calls _ _ := le_rfl

end Persists

/-- Steps that touch neither feeds nor managers and create no janitor or statistics. -/
structure Aside (m m' : Store α) : Prop where
  feeds : m'.feeds = m.feeds
  managers : m'.managers = m.managers
  janitors : m'.janitors.size = m.janitors.size
  statistics : m'.statistics.size = m.statistics.size
  persists : m.Persists m'

/-- A relation on stores that contains `Aside` steps and the changes of feeds by `R`. -/
structure Steps (R : Feeds α → Feeds α → Prop) (S : Store α → Store α → Prop) : Prop
    extends toFeeds : Feeds.Steps R where
  next : ∀ {m m' m''}, S m m' → S m' m'' → S m m''
  aside : ∀ {m m'}, Aside m m' → S m m'
  feeds : ∀ {m : Store α} {s}, R m.feeds s → S m { m with feeds := s }

/-- Running the call takes every store to a related one. -/
def Call.Within (S : Store α → Store α → Prop) (f : Call α β) : Prop := ∀ m : Store α, S m (f.run m).2

def AllowsForget (S : Store α → Store α → Prop) : Prop :=
  ∀ manager context, (onManager manager (·.forget context) : Call α Unit).Within S

def OnFeeds (R : Feeds α → Feeds α → Prop) (m m' : Store α) : Prop := R m.feeds m'.feeds

abbrev Call.Carries (R : Feeds α → Feeds α → Prop) (f : Call α β) : Prop := f.Within (OnFeeds R)

end Store

structure Switches.Within (w : Switches α) (R : Feeds α → Feeds α → Prop) (S : Store α → Store α → Prop) :
    Prop extends Store.Steps R S where
  close : ∀ j, (w.close j).Within S
  release : ∀ j, (w.release j).Within S
  closeBuffer : ∀ feed, (w.closeBuffer feed).Within S

abbrev Switches.Carries (w : Switches α) (R : Feeds α → Feeds α → Prop) : Prop := w.Within R (OnFeeds R)

variable {R : Feeds α → Feeds α → Prop} {S : Store α → Store α → Prop} {w : Switches α}

namespace Store.Steps

variable {f : Call α β} {g : β → Call α γ}

theorem pure (hS : Steps R S) (x : β) : Call.Within S (Pure.pure x : Call α β) :=
  fun m => hS.aside ⟨rfl, rfl, rfl, rfl, .refl m⟩

theorem bind (hS : Steps R S) (hf : f.Within S) (hg : ∀ x, (g x).Within S) : (f >>= g).Within S :=
  fun m => hS.next (hf m) (hg _ _)

theorem get (hS : Steps R S) : Call.Within S (MonadState.get : Call α (Store α)) :=
  fun m => hS.aside ⟨rfl, rfl, rfl, rfl, .refl m⟩

theorem onJanitor (hS : Steps R S) (slot : Nat) {f : JanitorState → JanitorState}
    (hc : ∀ t, t.closed → (f t).closed) (hr : ∀ t, t.released → (f t).released) :
    (Store.onJanitor slot f : Call α Unit).Within S :=
  fun _ => hS.aside ⟨rfl, rfl, Array.size_modify .., rfl, .change (.of_change hc hr)⟩

theorem onScript (hS : Steps R S) (slot : Nat) {f : ScriptState → ScriptState}
    (hf : ∀ t ending, t.calls ending ≤ (f t).calls ending) : (Store.onScript slot f : Call α Unit).Within S :=
  fun _ => hS.aside ⟨rfl, rfl, rfl, rfl, .onScript hf slot⟩

theorem onStatistics (hS : Steps R S) (slot : Nat) (f : Statistics → Statistics) :
    (Store.onStatistics slot f : Call α Unit).Within S :=
  fun _ => hS.aside ⟨rfl, rfl, rfl, Array.size_modify .., Persists.of_eq rfl rfl rfl⟩

theorem closeBase (hS : Steps R S) (slot : Nat) : (Store.closeBase slot : Call α Unit).Within S :=
  fun _ => hS.aside ⟨rfl, rfl, rfl, rfl, .closeBase slot⟩

theorem newProviderId (hS : Steps R S) : (Store.newProviderId : Call α ProviderId).Within S :=
  fun _ => hS.aside ⟨rfl, rfl, rfl, rfl, Persists.of_eq rfl rfl rfl⟩

theorem addBase (hS : Steps R S) (feed : Nat) : (Store.addBase feed : Call α Provider).Within S :=
  fun _ => hS.aside ⟨rfl, rfl, rfl, rfl, .addBase⟩

theorem noting (hS : Steps R S) (e : Event) : (Store.note e : Call α Unit).Within S :=
  fun m => hS.feeds (hS.note e m.feeds)

theorem onFeeds (hS : Steps R S) {f : Feeds α → β × Feeds α} (hf : ∀ s, R s (f s).2) :
    (Store.onFeeds f : Call α β).Within S := fun m => hS.feeds (hf m.feeds)

theorem record (hS : Steps R S) (report : Report) (provider : ProviderId) (stage : Stage)
    (outcome : Outcome StreamError Unit) :
    (report.record (α := α) provider stage outcome).Within S := by
  unfold Report.record
  split
  · exact hS.pure _
  · exact hS.bind (hS.noting _) fun _ => hS.pure _

theorem make (hS : Steps R S) (cue : ErrorCue) : (cue.make : Call α StreamError).Within S := by
  cases cue with
  | fixed e => exact hS.pure _
  | providerClosed => exact hS.bind hS.newProviderId fun _ => hS.pure _

end Store.Steps

namespace Feeds.Steps

theorem store (hR : Feeds.Steps R) : Store.Steps R (OnFeeds R) :=
  ⟨hR, fun h h' => hR.trans h h', fun {m m'} h => (h.feeds ▸ hR.refl m.feeds : R m.feeds m'.feeds), id⟩

theorem aside {f : Call α β} (hR : Feeds.Steps R) (hf : ∀ m, (f.run m).2.feeds = m.feeds) :
    f.Carries R := by
  intro m
  rw [OnFeeds, hf]
  exact hR.refl m.feeds

theorem addManager (hR : Feeds.Steps R) (config : Config) : (Store.addManager (α := α) config).Carries R :=
  hR.aside (feeds_addManager config)

theorem forgets (hR : Feeds.Steps R) : AllowsForget (OnFeeds R) := fun _ _ m => hR.refl m.feeds

theorem manageProvider (hR : Feeds.Steps R) (manager : Nat) (inner : Provider) (context : String) :
    (Manager.manageProvider (α := α) manager inner context).Carries R := by
  refine hR.store.bind hR.store.get fun m => ?_
  split
  · exact hR.store.pure _
  · refine hR.store.bind (hR.aside fun _ => rfl) fun _ => ?_
    refine hR.store.bind (hR.store.noting _) fun _ => ?_
    refine hR.store.bind hR.store.get fun m => ?_
    refine hR.store.bind (hR.aside fun _ => rfl) fun _ => ?_
    exact hR.store.pure _

end Feeds.Steps

namespace Switches.Within

theorem demand (hw : w.Within R S) (j : Janitor) : (w.demand j).Within S :=
  hw.bind (hw.onJanitor _ (fun _ => id) fun _ => id) fun _ => hw.release j

theorem endOuter (hw : w.Within R S) (slot : Nat) (ending : Ending) :
    (w.endOuter slot ending).Within S := by
  refine hw.bind hw.get fun m => ?_
  split
  · exact hw.pure _
  · refine hw.bind hw.get fun m => ?_
    split
    · exact hw.pure _
    · cases ending with
      | close => exact hw.bind (hw.close _) fun _ => hw.pure _
      | release => exact hw.bind (hw.demand _) fun _ => hw.pure _

theorem perform (hw : w.Within R S) (slot : Nat) (act : Act) : (act.perform w slot).Within S := by
  cases act with
  | pass => exact hw.pure _
  | outer ending => exact hw.bind (hw.endOuter slot ending) fun _ => hw.pure _
  | panic p => exact hw.pure _
  | fail cue => exact hw.bind (hw.make cue) fun _ => hw.pure _

theorem countCall (hw : w.Within R S) (caller : Option Nat) {f : JanitorState → JanitorState}
    (hc : ∀ t, t.closed → (f t).closed) (hr : ∀ t, t.released → (f t).released) :
    (Store.countCall caller f : Call α Unit).Within S := by
  cases caller with
  | none => exact hw.pure _
  | some slot => exact hw.onJanitor slot hc hr

/-- A scripted layer calls its inner provider between two acts. -/
theorem layer (hw : w.Within R S) (slot : Nat) (first last : Act) {f : Call α (Outcome StreamError Unit)}
    (hf : f.Within S) : Call.Within S (do
      match ← first.perform w slot with
      | .error stop => return .error stop
      | .ok () =>
        match ← f with
        | .error stop => return .error stop
        | .ok () => last.perform w slot) := by
  refine hw.bind (hw.perform slot first) fun x => ?_
  split
  · exact hw.pure _
  · refine hw.bind hf fun x => ?_
    split
    · exact hw.pure _
    · exact hw.perform slot last

theorem closeProvider (hw : w.Within R S) (caller : Option Nat) (p : Provider) :
    (p.close w caller).Within S := by
  induction p generalizing caller with
  | base slot name feed =>
    refine hw.bind (hw.countCall caller (fun _ => id) fun _ => id) fun _ => ?_
    refine hw.bind hw.get fun m => ?_
    split
    · exact hw.pure _
    · refine hw.bind (hw.closeBase _) fun _ => ?_
      refine hw.bind (hw.noting _) fun _ => ?_
      exact hw.pure _
  | managed slot statistics hook inner =>
    refine hw.bind (hw.countCall caller (fun _ => id) fun _ => id) fun _ => ?_
    refine hw.bind (hw.bind (hw.close _) fun _ => hw.pure _) fun _ => ?_
    exact hw.pure _
  | scripted slot script inner ih =>
    refine hw.bind (hw.countCall caller (fun _ => id) fun _ => id) fun _ => ?_
    refine hw.bind hw.get fun m => ?_
    refine hw.bind (hw.onScript _ fun t => t.calls_call .close) fun _ => ?_
    exact hw.layer slot _ _ (ih none)

theorem releaseProvider (hw : w.Within R S) (caller : Option Nat) (p : Provider) :
    (p.release w caller).Within S := by
  induction p generalizing caller with
  | base slot name feed =>
    refine hw.bind (hw.countCall caller (fun _ => id) fun _ => id) fun _ => ?_
    refine hw.bind (hw.closeBase _) fun _ => ?_
    refine hw.bind (hw.closeBuffer feed) fun _ => ?_
    exact hw.pure _
  | managed slot statistics hook inner =>
    refine hw.bind (hw.countCall caller (fun _ => id) fun _ => id) fun _ => ?_
    refine hw.bind (hw.bind (hw.demand _) fun _ => hw.pure _) fun _ => ?_
    exact hw.pure _
  | scripted slot script inner ih =>
    refine hw.bind (hw.countCall caller (fun _ => id) fun _ => id) fun _ => ?_
    refine hw.bind hw.get fun m => ?_
    refine hw.bind (hw.onScript _ fun t => t.calls_call .release) fun _ => ?_
    exact hw.layer slot _ _ (ih none)

theorem countOut (hw : w.Within R S) (j : Janitor) (report : Report) :
    (j.countOut w report).Within S := by
  refine hw.bind hw.get fun m => ?_
  refine hw.bind (hw.onJanitor _ (fun _ => id) fun _ => id) fun _ => ?_
  refine hw.bind hw.get fun m => ?_
  split
  · exact hw.bind (hw.release j) fun _ => hw.pure _
  · exact hw.pure _

theorem releaseCursor (hw : w.Within R S) (j : Janitor)
    {step : Call α (Outcome StreamError Unit × Cursor)} (hstep : step.Within S) :
    (j.releaseCursor w step).Within S := by
  have hrest : Call.Within S (do
      let x ← step
      let report ← Report.begun.record j.id .releaseCursor x.1
      return (← j.countOut w report, x.2)) := by
    refine hw.bind hstep fun _ => ?_
    refine hw.bind (hw.record _ _ _ _) fun _ => ?_
    refine hw.bind (hw.countOut j _) fun _ => ?_
    exact hw.pure _
  refine hw.bind hw.get fun m => ?_
  split
  · exact hw.bind (hw.onStatistics _ _) fun _ => hrest
  · exact hrest

theorem releaseLayers (hw : w.Within R S) (c : Cursor) : (c.release w).Within S := by
  induction c with
  | plain feed provider head => exact hw.pure _
  | managed janitor released inner ih =>
    unfold Cursor.release
    split
    · exact hw.pure _
    · exact hw.bind (hw.releaseCursor janitor ih) fun _ => hw.pure _
  | watched slot act inner ih =>
    refine hw.bind (hw.perform slot act) fun x => ?_
    split
    · exact hw.pure _
    · exact hw.bind ih fun _ => hw.pure _

theorem closeLayers (hw : w.Within R S) (c : Cursor) : (c.close w).Within S := by
  induction c with
  | plain feed provider head => exact hw.pure _
  | managed janitor released inner ih =>
    unfold Cursor.close
    split
    · exact hw.pure _
    · exact hw.bind ih fun inner =>
        hw.bind (hw.releaseCursor janitor (hw.releaseLayers inner)) fun _ => hw.pure _
  | watched slot act inner ih => exact hw.bind ih fun _ => hw.pure _

theorem dropLayers (hw : w.Within R S) (layers : Nat) (c : Cursor) :
    (c.dropLayers w layers).Within S := by
  induction layers generalizing c with
  | zero => exact hw.pure _
  | succ layers ih =>
    cases c with
    | plain feed provider head => exact hw.pure _
    | managed janitor released inner =>
      unfold Cursor.dropLayers
      split
      · exact ih inner
      · exact hw.bind (hw.releaseCursor janitor (hw.releaseLayers inner)) fun x => ih x.2
    | watched slot act inner => exact ih inner

theorem closeSourceLayers (hw : w.Within R S) (source : Source α) :
    (source.closeUncounted w).Within S := by
  cases source with
  | chain c =>
    refine hw.bind (hw.closeLayers c) fun _ => ?_
    exact hw.pure _
  | _ => exact hw.pure _

theorem dropSourceLayers (hw : w.Within R S) (source : Source α) : (source.drop w).Within S := by
  cases source with
  | chain c => exact hw.dropLayers c.depth c
  | _ => exact hw.pure _

theorem closeDelegate (hw : w.Within R S) (j : Janitor) : (j.closeDelegate w).Within S := by
  refine hw.bind (hw.closeProvider _ _) fun _ => ?_
  refine hw.bind (hw.record _ _ _ _) fun _ => ?_
  refine hw.bind (hw.onStatistics _ _) fun _ => ?_
  refine hw.bind (hw.noting _) fun _ => ?_
  exact hw.pure _

theorem releaseDelegate (hw : w.Within R S) (j : Janitor) (report : Report) :
    (j.releaseDelegate w report).Within S := by
  refine hw.bind (hw.releaseProvider _ _) fun _ => ?_
  refine hw.bind (hw.record _ _ _ _) fun _ => ?_
  refine hw.bind hw.get fun _ => ?_
  refine hw.bind (hw.onStatistics _ _) fun _ => ?_
  refine hw.bind (hw.noting _) fun _ => ?_
  exact hw.pure _

theorem closeJanitor (hw : w.Within R S) (j : Janitor) : (j.close w).Within S := by
  refine hw.bind hw.get fun m => ?_
  split
  · exact hw.pure _
  · refine hw.bind (hw.onJanitor _ (fun _ _ => rfl) fun _ => id) fun _ => ?_
    refine hw.bind (hw.closeDelegate j) fun _ => ?_
    refine hw.bind hw.get fun m => ?_
    split
    · exact hw.bind (hw.release j) fun _ => hw.pure _
    · exact hw.pure _

theorem releaseJanitor (hw : w.Within R S) (j : Janitor) : (j.release w).Within S := by
  refine hw.bind hw.get fun m => ?_
  split
  · exact hw.pure _
  · refine hw.bind (hw.onJanitor _ (fun _ => id) fun _ _ => rfl) fun _ => ?_
    refine hw.bind (hw.close j) fun _ => ?_
    exact hw.releaseDelegate j _

/-- For the switches it remains to look at how a buffer closes. -/
theorem switches (hS : Store.Steps R S)
    (hbuffer : ∀ left, (Replay.switches left : Switches α).Within R S →
      ∀ feed, (Store.closeBuffer (Replay.switches left) feed).Within S) (left : Nat) :
    (Replay.switches left : Switches α).Within R S := by
  induction left with
  | zero => exact ⟨hS, fun _ => hS.pure _, fun _ => hS.pure _, fun _ => hS.pure _⟩
  | succ left ih => exact ⟨hS, ih.closeJanitor, ih.releaseJanitor, hbuffer left ih⟩

section sources

variable {feed other : Nat}

theorem dropSource (hw : w.Within R S) (hR : Feeds.AllowsSource R other) :
    (Store.dropSource w other).Within S := by
  refine hw.bind hw.get fun m => ?_
  split
  · exact hw.pure _
  · exact hw.bind (fun m => hw.feeds (hR.setSource _ m.feeds)) fun _ => hw.dropSourceLayers _

theorem addBuffer (hw : w.Within R S) (hR : Feeds.AllowsSource R other) {config : Config}
    (hmake : ∀ hint b, Buffer.ofConfig config hint = .ok b →
      ∀ s : Feeds α, R s (s.setBuffer other (some b))) :
    (Store.addBuffer w config other).Within S := by
  refine hw.bind hw.get fun m => ?_
  dsimp only
  split
  · exact hw.bind (hw.dropSource hR) fun _ => hw.pure _
  · rename_i b hb
    exact hw.bind (fun m => hw.feeds (hmake _ b hb m.feeds)) fun _ => hw.pure _

theorem dropUnreached (hw : w.Within R S) {r : Reach} (hR : ∀ other ∉ r.feeds, Feeds.AllowsSource R other)
    (count : Nat) : (Store.dropUnreached w r count).Within S := by
  induction count with
  | zero => exact hw.pure _
  | succ count ih =>
    unfold Store.dropUnreached
    dsimp only
    split
    · rename_i hout
      refine hw.bind (hw.dropSource (hR count fun hmem => ?_)) fun _ => ih
      exact absurd (List.contains_iff_mem.mpr hmem) (by simpa using hout)
    · exact ih

theorem closeSource (hw : w.Within R S) (hR : Feeds.AllowsSource R other) :
    (Store.closeSource w other).Within S := by
  refine hw.bind hw.get fun m => ?_
  split
  · exact hw.pure _
  · rename_i source _
    have hclose : (source.close w other).Within S := by
      rw [Source.close_eq]
      refine hw.bind (fun m => hw.feeds (hR.count _ m.feeds)) fun _ => ?_
      exact hw.closeSourceLayers source
    refine hw.bind hclose fun _ => ?_
    refine hw.bind (fun m => hw.feeds (hR.setSource _ m.feeds)) fun _ => ?_
    exact hw.pure _

theorem shutBuffer (hw : w.Within R S) (hR : Feeds.AllowsSource R other)
    (hshut : ∀ (s : Feeds α) b, s.buffer? other = some b → b.closed = false →
      R s (s.setBuffer other (some b.close))) : (Store.closeBuffer w other).Within S := by
  intro m
  rw [Store.closeBuffer, Call.run_bind, Call.run_get]
  dsimp only
  cases hb : m.feeds.buffer? other with
  | none => exact hw.pure _ m
  | some b =>
    dsimp only
    split
    · exact hw.pure _ m
    · rename_i hopen
      rw [Call.run_bind, Call.run_modify]
      refine hw.next (hw.feeds (hshut m.feeds b hb (Bool.eq_false_iff.mpr hopen))) ?_
      refine (?_ : Call.Within S _) { m with feeds := m.feeds.setBuffer other (some b.close) }
      refine hw.bind (hw.noting _) fun _ => ?_
      split
      · refine hw.bind (hw.closeSource hR) fun _ => ?_
        refine hw.bind (hw.dropSource hR) fun _ => ?_
        exact hw.pure _
      · refine hw.bind (hw.pure _) fun _ => ?_
        refine hw.bind (hw.dropSource hR) fun _ => ?_
        exact hw.pure _

theorem closeOther (hw : w.Within R S) (hR : Feeds.AllowsOthers R feed) (hne : other ≠ feed) :
    (Store.closeBuffer w other).Within S :=
  hw.shutBuffer (hR.allowsSource hne) fun s _ _ _ => hR other hne _ s

end sources

section managers

theorem releaseAll (hw : w.Within R S) (ps : List Provider) (report : Report) :
    (Manager.releaseAll w ps report).Within S := by
  induction ps generalizing report with
  | nil => exact hw.pure _
  | cons p ps ih =>
    unfold Manager.releaseAll
    split
    · exact hw.bind (hw.demand _) fun _ => ih _
    · exact hw.bind (hw.pure _) fun _ => ih _

theorem complete (hw : w.Within R S) (hS : AllowsForget S) (manager : Nat) (context : String) :
    (Manager.complete w manager context).Within S := by
  refine hw.bind hw.get fun m => ?_
  split
  · exact hw.pure _
  · split
    · exact hw.pure _
    · refine hw.bind (hS manager context) fun _ => ?_
      refine hw.bind (hw.releaseAll _ _) fun _ => ?_
      refine hw.bind (hw.noting _) fun _ => ?_
      exact hw.pure _

theorem completeAll (hw : w.Within R S) (hS : AllowsForget S) (manager : Nat) (contexts : List String)
    (report : Report) : (Manager.completeAll w manager contexts report).Within S := by
  induction contexts generalizing report with
  | nil => exact hw.pure _
  | cons context contexts ih => exact hw.bind (hw.complete hS manager context) fun _ => ih _

theorem dispose (hw : w.Within R S) (hS : AllowsForget S) (manager : Nat) :
    (Manager.dispose w manager).Within S := by
  refine hw.bind hw.get fun m => ?_
  split
  · exact hw.pure _
  · exact hw.completeAll hS _ _ _

end managers

section opening

variable (hreads : Feeds.Reads R)

include hreads

theorem skip (hS : Store.Steps R S) (count : Nat) (c : Cursor) : (c.skip count : Call α _).Within S := by
  induction count generalizing c with
  | zero => exact hS.pure _
  | succ count ih =>
    refine hS.bind (hS.onFeeds fun s => hreads.next c s) fun x => ?_
    rcases x with ⟨(_ | _) | _, c'⟩
    · exact ih c'
    · exact hS.pure _
    · exact ih c'

theorem applyHook (hw : w.Within R S) (j : Janitor) (c : Cursor) (hook : Hook) :
    (hook.apply w j c).Within S := by
  cases hook with
  | skip count =>
    refine hw.bind (skip hreads hw.toSteps count _) fun x => ?_
    rcases x with ⟨_ | _, c'⟩
    · exact hw.bind (hw.dropLayers _ c') fun _ => hw.pure _
    · exact hw.pure _
  | released => exact hw.bind (hw.releaseLayers _) fun _ => hw.pure _
  | plain => exact hw.pure _
  | raw => exact hw.pure _
  | seek position => exact hw.pure _
  | doubled => exact hw.pure _

theorem openCursor (hw : w.Within R S) (p : Provider) : (p.openCursor w).Within S := by
  induction p with
  | base slot id feed =>
    refine hw.bind hw.get fun m => ?_
    split
    · exact hw.pure _
    · exact hw.pure _
  | managed slot statistics hook inner ih =>
    refine hw.bind hw.get fun m => ?_
    split
    · exact hw.pure _
    · refine hw.bind ih fun x => ?_
      cases x with
      | error stop => exact hw.pure _
      | ok c =>
        refine hw.bind (hw.onJanitor _ (fun _ => id) fun _ => id) fun _ => ?_
        refine hw.bind (hw.onStatistics _ _) fun _ => ?_
        refine hw.bind hw.get fun m => ?_
        split
        · refine hw.bind (hw.onStatistics _ _) fun _ => ?_
          refine hw.bind (hw.releaseCursor _ (hw.releaseLayers c)) fun x => ?_
          refine hw.bind (hw.dropLayers _ x.2) fun _ => ?_
          exact hw.pure _
        · exact hw.applyHook hreads _ c hook
  | scripted slot script inner ih =>
    refine hw.bind hw.get fun m => ?_
    refine hw.bind (hw.onScript _ fun t ending => ?_) fun _ => ?_
    · cases ending with
      | close => exact le_rfl
      | release => exact le_rfl
    refine hw.bind (hw.perform slot _) fun x => ?_
    cases x with
    | error stop => exact hw.pure _
    | ok =>
      refine hw.bind ih fun x => ?_
      cases x with
      | error stop => exact hw.pure _
      | ok c =>
        refine hw.bind (hw.perform slot _) fun x => ?_
        cases x with
        | error stop => exact hw.bind (hw.dropLayers _ c) fun _ => hw.pure _
        | ok =>
          dsimp only
          split
          · exact hw.pure _
          · exact hw.pure _

end opening

end Switches.Within

theorem Switches.Carries.manage (hw : w.Carries R) {other : Nat} (hR : Feeds.AllowsSource R other)
    (hmake : ∀ config hint b, Buffer.ofConfig config hint = .ok b →
      ∀ s : Feeds α, R s (s.setBuffer other (some b))) (manager : Nat) (context : String) :
    (Manager.manage w manager other context).Carries R := by
  refine hw.bind hw.get fun m => ?_
  split
  · exact hw.pure _
  · refine hw.bind (hw.addBuffer hR (hmake _)) fun x => ?_
    split
    · exact hw.pure _
    · exact hw.bind (hw.addBase _) fun base =>
        hw.bind (hw.toFeeds.manageProvider manager base context) fun _ => hw.pure _

theorem Store.Call.Within.withSwitches {f : Switches α → Call α β}
    (hf : ∀ left, (f (switches left)).Within S) : (Replay.withSwitches f).Within S :=
  fun m => hf m.endings m

namespace Feeds.Unrestricted

theorem steps (hR : Unrestricted R) : Steps R := ⟨hR.refl, hR.trans, hR.note⟩

theorem reads (hR : Unrestricted R) : Reads R where
  hasNext c s := hR.hasNextBy hR.draws c s
  next c s := hR.nextBy hR.draws c s

theorem allowsSource (hR : Unrestricted R) (feed : Nat) : AllowsSource R feed where
  setSource _ s := hR.modify feed _ s
  count _ s := hR.modify feed _ s

theorem carries (hR : Unrestricted R) (left : Nat) : (switches left : Switches α).Carries R := by
  refine .switches hR.steps.store (fun left hw feed => ?_) left
  exact hw.closeOther (fun other _ f s => hR.modify other f s) (Nat.lt_succ_self feed).ne

theorem onBuffer (hR : Unrestricted R) {feed : Nat}
    {f : Buffer α → Feeds α → Outcome StreamError β × Buffer α × Feeds α}
    (hf : ∀ I, (tap draw feed).Preserves I → ∀ b s, I s → I (f b s).2.2) (s : Feeds α) :
    R s (s.onBuffer feed f).2 := by
  unfold Feeds.onBuffer
  split
  · exact hR.refl s
  · have htaken : R s (s.setBuffer feed none) := hR.modify feed _ s
    exact hR.trans (hf _ (hR.preserves hR.draws s feed) _ _ htaken) (hR.modify feed _ _)

end Feeds.Unrestricted

theorem Feeds.Reads.preserves (hreads : Feeds.Reads R) (hR : Feeds.Steps R) (s : Feeds α) :
    (Cursor.reader (α := α)).Preserves fun place => R s place.2 := by
  rintro ⟨c, s'⟩ h
  exact c.stepBy_preserves (P := fun place => R s place.2) (hR.trans h (hreads.hasNext c s'))
    fun s'' h => hR.trans h (hreads.next c s'')

/-- Operations that neither release nor close the cursor. -/
def CursorOp.Reading : CursorOp → Prop
  | release | close => False
  | _ => True

theorem CursorOp.within_reading (hS : Store.Steps R S) (hreads : Feeds.Reads R) (c : Cursor) {t : CursorOp}
    (ht : t.Reading) : (t.perform c : Call α _).Within S := by
  have hreader := fun s : Feeds α => hreads.preserves hS.toFeeds s
  cases t with
  | hasNext => exact fun m => hS.feeds (hreads.hasNext c m.feeds)
  | next => exact fun m => hS.feeds (hreads.next c m.feeds)
  | seek position =>
    rw [CursorOp.perform]
    cases c.seek position with
    | ok d => exact hS.pure _
    | error e => exact hS.pure _
  | release => exact ht.elim
  | close => exact ht.elim
  | read room => exact fun m => hS.feeds ((hreader m.feeds).fill room (hS.refl m.feeds))
  | items count => exact fun m => hS.feeds ((hreader m.feeds).take count (hS.refl m.feeds))
  | drain most => exact fun m => hS.feeds ((hreader m.feeds).drain most #[] (hS.refl m.feeds))

theorem CursorOp.within (hreads : Feeds.Reads R) (hw : ∀ left, (switches left : Switches α).Within R S)
    (c : Cursor) (t : CursorOp) : (t.perform c : Call α _).Within S := by
  have hS := (hw 0).toSteps
  cases t with
  | release =>
    exact hS.bind (.withSwitches fun left => (hw left).releaseLayers c) fun _ => hS.pure _
  | close => exact hS.bind (.withSwitches fun left => (hw left).closeLayers c) fun _ => hS.pure _
  | _ => exact within_reading hS hreads c trivial

end Replay
