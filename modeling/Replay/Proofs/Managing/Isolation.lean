import Replay.Proofs.Accounts.Ending
import Replay.Proofs.Janitor.Ending

/-!
The providers affected by closing or releasing a delegate. If no layer of it acts on another managed
provider that is not yet closed or released, and no cursor that its source reads through is still held,
no other provider is affected: all janitors, up to their tallies, the statistics, and all base providers
but its own are unchanged.
-/
namespace Replay

open Store

variable {α β γ : Type}

def Script.before (script : Script) : Ending → Nat → Act
  | .close => script.onClose
  | .release => script.onRelease

def Script.after (script : Script) : Ending → Nat → Act
  | .close => script.afterClose
  | .release => script.afterRelease

/-- A call passed on by a scripted layer between two acts, unless one of the three fails. -/
def Act.around (w : Switches α) (slot : Nat) (before after : Act) (f : Call α (Outcome StreamError Unit)) :
    Call α (Outcome StreamError Unit) := do
  match ← before.perform w slot with
  | .error stop => return .error stop
  | .ok () =>
    match ← f with
    | .error stop => return .error stop
    | .ok () => after.perform w slot

namespace Provider

/-- The base provider below all layers. -/
def baseSlot : Provider → Nat
  | base slot _ _ => slot
  | managed _ _ _ inner => inner.baseSlot
  | scripted _ _ inner => inner.baseSlot

def finish (w : Switches α) (p : Provider) : Ending → Call α (Outcome StreamError Unit)
  | .close => p.close w none
  | .release => p.release w none

theorem finish_scripted (w : Switches α) (slot : Nat) (script : Script) (inner : Provider) (ending : Ending) :
    (scripted slot script inner).finish w ending = (do
      let call := ((← get).script slot).calls ending
      onScript slot (·.call ending)
      Act.around w slot (script.before ending call) (script.after ending call) (inner.finish w ending)) := by
  cases ending with
  | close => rfl
  | release => rfl

end Provider

namespace JanitorState

/-- The state of a janitor up to its tallies. -/
def untallied (t : JanitorState) : JanitorState := { t with closings := 0, releasings := 0, demands := 0 }

end JanitorState

namespace Store

/-- What is monotone during teardown: flags stay set, and scripts keep what they act on. -/
structure TeardownMono (m m' : Store α) : Prop where
  past : ∀ slot ending, (m.janitor slot).past ending → (m'.janitor slot).past ending
  retired : ∀ slot, (m.janitor slot).retired → (m'.janitor slot).retired
  bound : ∀ slot, (m'.script slot).outer = (m.script slot).outer
  calls : ∀ slot ending, (m.script slot).calls ending ≤ (m'.script slot).calls ending
  lent : ∀ feed c, m'.feeds.lent feed = some c → m.feeds.lent feed = some c

/-- The changes of janitors and statistics, up to tallies; the bases `below` may be closed. -/
structure TeardownEffect (below : Nat → Prop) (g : Nat → JanitorState → JanitorState)
    (f : Nat → Statistics → Statistics) (m m' : Store α) : Prop extends TeardownMono m m' where
  bases : ∀ slot, ¬below slot → m'.baseClosed slot = m.baseClosed slot
  janitors : m'.janitors.size = m.janitors.size
  janitor : ∀ slot, (m'.janitor slot).untallied = g slot (m.janitor slot).untallied
  made : m'.statistics.size = m.statistics.size
  statistics : ∀ q, m'.statisticsAt q = f q (m.statisticsAt q)

/-- No provider is affected but the bases `below`, and the statistics are unchanged. -/
abbrev Untouched (m : Store α) (below : Nat → Prop) (m' : Store α) : Prop :=
  TeardownEffect below (fun _ t => t) (fun _ s => s) m m'

variable {m m' m'' : Store α} {own slot feed : Nat} {ending : Ending} {below : Nat → Prop}
  {g g' : Nat → JanitorState → JanitorState} {f f' : Nat → Statistics → Statistics}

theorem TeardownMono.of_lent (hjanitor : ∀ slot, m'.janitor slot = m.janitor slot)
    (hscript : ∀ slot, m'.script slot = m.script slot)
    (hlent : ∀ feed c, m'.feeds.lent feed = some c → m.feeds.lent feed = some c) : m.TeardownMono m' where
  past slot ending h := by rwa [hjanitor]
  retired slot h := by rwa [hjanitor]
  bound slot := by rw [hscript]
  calls slot ending := by rw [hscript]
  lent := hlent

theorem TeardownMono.trans (h : m.TeardownMono m') (h' : m'.TeardownMono m'') : m.TeardownMono m'' where
  past slot ending := h'.past slot ending ∘ h.past slot ending
  retired slot := h'.retired slot ∘ h.retired slot
  bound slot := (h'.bound slot).trans (h.bound slot)
  calls slot ending := (h.calls slot ending).trans (h'.calls slot ending)
  lent feed c := h.lent feed c ∘ h'.lent feed c

theorem TeardownEffect.trans (h : TeardownEffect below g f m m') (h' : TeardownEffect below g' f' m' m'') :
    TeardownEffect below (fun slot t => g' slot (g slot t)) (fun q s => f' q (f q s)) m m'' where
  toTeardownMono := h.toTeardownMono.trans h'.toTeardownMono
  bases slot hslot := (h'.bases slot hslot).trans (h.bases slot hslot)
  janitors := h'.janitors.trans h.janitors
  janitor slot := (h'.janitor slot).trans (congrArg (g' slot) (h.janitor slot))
  made := h'.made.trans h.made
  statistics q := (h'.statistics q).trans (congrArg (f' q) (h.statistics q))

namespace Untouched

theorem of_feeds {s : Feeds α} (hs : ∀ feed c, s.lent feed = some c → m.feeds.lent feed = some c) :
    m.Untouched below { m with feeds := s } where
  toTeardownMono := .of_lent (fun _ => rfl) (fun _ => rfl) hs
  bases _ _ := rfl
  janitors := rfl
  janitor _ := rfl
  made := rfl
  statistics _ := rfl

theorem refl (m : Store α) : m.Untouched below m := of_feeds fun _ _ => id

theorem bind {f : Call α β} {g : β → Call α γ} (hf : m.Untouched below (f.run m).2)
    (hg : ∀ x m', m.Untouched below m' → m'.Untouched below ((g x).run m').2) :
    m.Untouched below ((f >>= g).run m).2 :=
  hf.trans (hg _ _ hf)

end Untouched

theorem untouched_of (hsize : m'.janitors.size = m.janitors.size)
    (hjanitor : ∀ slot, (m'.janitor slot).untallied = (m.janitor slot).untallied)
    (hscript : ∀ slot, (m'.script slot).outer = (m.script slot).outer ∧
      ∀ ending, (m.script slot).calls ending ≤ (m'.script slot).calls ending)
    (hbases : ∀ slot, ¬below slot → m'.baseClosed slot = m.baseClosed slot) (hfeeds : m'.feeds = m.feeds)
    (hstatistics : m'.statistics = m.statistics) : m.Untouched below m' where
  past slot ending h := by
    cases ending with
    | close => exact (congrArg JanitorState.closed (hjanitor slot) :).trans h
    | release => exact (congrArg JanitorState.released (hjanitor slot) :).trans h
  retired slot h := (congrArg JanitorState.retired (hjanitor slot) :).trans h
  bound slot := (hscript slot).1
  calls slot := (hscript slot).2
  lent feed c h := by rwa [hfeeds] at h
  bases := hbases
  janitors := hsize
  janitor := hjanitor
  made := congrArg Array.size hstatistics
  statistics q := congrArg (·.getD q {}) hstatistics

theorem untouched_tally {tally : JanitorState → JanitorState}
    (htally : ∀ t, (tally t).untallied = t.untallied) :
    m.Untouched below (m.change slot tally) := by
  refine untouched_of size_change (fun other => ?_) (fun _ => ⟨rfl, fun _ => le_rfl⟩) (fun _ _ => rfl) rfl rfl
  by_cases hother : slot = other
  · rw [← hother]
    exact janitor_change_congr htally
  · rw [janitor_change_of_ne hother]

theorem untouched_note (e : Event) (m : Store α) : m.Untouched below ((note e).run m).2 :=
  .of_feeds fun _ _ => id

theorem untouched_closeBase (hslot : below slot) (m : Store α) :
    m.Untouched below ((closeBase slot).run m).2 := by
  refine untouched_of rfl (fun _ => rfl) (fun _ => ⟨rfl, fun _ => le_rfl⟩) (fun other hother => ?_) rfl rfl
  have hne : slot ≠ other := fun h => hother (h ▸ hslot)
  change (m.closedBases.setIfInBounds slot true).getD other false = m.closedBases.getD other false
  simp only [Array.getD_eq_getD_getElem?, Array.getElem?_setIfInBounds_ne hne]

theorem untouched_newProviderId (m : Store α) : m.Untouched below (newProviderId.run m).2 :=
  untouched_of rfl (fun _ => rfl) (fun _ => ⟨rfl, fun _ => le_rfl⟩) (fun _ _ => rfl) rfl rfl

theorem untouched_record (report : Report) (provider : ProviderId) (stage : Stage)
    (outcome : Outcome StreamError Unit) (m : Store α) :
    m.Untouched below ((report.record provider stage outcome).run m).2 := by
  unfold Report.record
  split
  · exact .refl m
  · exact untouched_note _ m

theorem untouched_make (cue : ErrorCue) (m : Store α) : m.Untouched below ((cue.make).run m).2 := by
  cases cue with
  | fixed e => exact .refl m
  | providerClosed => exact untouched_newProviderId m

theorem untouched_call (slot : Nat) (ending : Ending) (m : Store α) :
    m.Untouched below ((onScript slot (·.call ending)).run m).2 := by
  refine untouched_of rfl (fun _ => rfl) (fun other =>
    ⟨outer_onScript slot (fun t => t.outer_call ending) m other, fun kind => ?_⟩) (fun _ _ => rfl) rfl rfl
  change _ ≤ ((m.scripts.modify slot (·.call ending)).getD other {}).calls kind
  rw [script, Array.getD_eq_getD_getElem?, Array.getD_eq_getD_getElem?, Array.getElem?_modify]
  split
  · cases m.scripts[other]? with
    | none => exact le_rfl
    | some t => exact t.calls_call ending kind
  · exact le_rfl

end Store

section isolated

/-- The janitor is `own`, or has already done what is asked. -/
def Store.Over (m : Store α) (own : Nat) (ending : Ending) (slot : Nat) : Prop :=
  slot = own ∨ (m.janitor slot).past ending

def Act.Isolated (m : Store α) (own slot : Nat) : Act → Prop
  | .outer ending => ∀ o, (m.script slot).outer = some o →
      (m.janitor o.slot).retired ∨ m.Over own ending o.slot
  | _ => True

/-- The delegate affects no other provider when it is closed or released by the janitor `own`. Managed
layers below it, and janitors its scripts act on, have already done so or have no handle left. -/
def Provider.Isolated (m : Store α) (own : Nat) (ending : Ending) : Provider → Prop
  | base _ _ feed => ending = .release → ∀ c, m.feeds.lent feed = some c → c.counted = 0
  | managed slot _ _ _ => m.Over own ending slot
  | scripted slot script inner => inner.Isolated m own ending ∧
      ∀ call ≥ (m.script slot).calls ending, (script.before ending call).Isolated m own slot ∧
        (script.after ending call).Isolated m own slot

variable {m m' : Store α} {own slot : Nat} {ending : Ending}

theorem Store.Over.teardownMono (h : m.Over own ending slot) (hm : m.TeardownMono m') :
    m'.Over own ending slot :=
  h.imp_right (hm.past slot ending)

theorem Act.Isolated.teardownMono {act : Act} (h : act.Isolated m own slot) (hm : m.TeardownMono m') :
    act.Isolated m' own slot := by
  cases act with
  | outer ending =>
    intro o ho
    rw [hm.bound] at ho
    exact (h o ho).imp (hm.retired o.slot) fun hover => hover.teardownMono hm
  | pass => trivial
  | panic p => trivial
  | fail cue => trivial

theorem Provider.Isolated.teardownMono {p : Provider} (h : p.Isolated m own ending) (hm : m.TeardownMono m') :
    p.Isolated m' own ending := by
  induction p with
  | base slot id feed => exact fun hending c hc => h hending c (hm.lent feed c hc)
  | managed slot statistics hook inner => exact Store.Over.teardownMono h hm
  | scripted slot script inner ih =>
    obtain ⟨hinner, hacts⟩ := h
    refine ⟨ih hinner, fun call hcall => ?_⟩
    obtain ⟨hbefore, hafter⟩ := hacts call ((hm.calls slot ending).trans hcall)
    exact ⟨hbefore.teardownMono hm, hafter.teardownMono hm⟩

def Provider.isBare (m : Store α) : Provider → Bool
  | base _ _ feed => (m.feeds.lent feed).isNone
  | _ => false

theorem Provider.isolated_of_isBare {p : Provider} (h : p.isBare m) : p.Isolated m own ending := by
  cases p with
  | base slot id feed =>
    intro _ c hc
    rw [isBare, hc] at h
    cases h
  | managed slot statistics hook inner => cases h
  | scripted slot script inner => cases h

end isolated

section spent

variable {w : Switches α} {m : Store α} {c : Cursor} {feed : Nat}

theorem Cursor.spent_managed {j : Janitor} {released : Bool} (h : (managed j released c).counted = 0) :
    released = true ∧ c.counted = 0 := by
  have hnone := fun slot => Nat.add_eq_zero_iff.mp (congrFun h slot)
  refine ⟨?_, funext fun slot => (hnone slot).1⟩
  cases released with
  | true => rfl
  | false =>
    have hone : j.one j.slot = 0 := (hnone j.slot).2
    rw [Janitor.one, if_pos rfl] at hone
    cases hone

theorem Cursor.run_close_spent (h : c.counted = 0) :
    ∃ d : Cursor, d.counted = 0 ∧ ∀ m : Store α, (c.close w).run m = (d, m) := by
  induction c with
  | plain feed provider head => exact ⟨_, rfl, fun _ => rfl⟩
  | managed j released inner ih =>
    obtain ⟨rfl, hinner⟩ := spent_managed h
    exact ⟨managed j true inner, (counted_released j inner).trans hinner, fun _ => rfl⟩
  | watched slot act inner ih =>
    obtain ⟨d, hd, hrun⟩ := ih h
    refine ⟨watched slot act d, hd, fun m => ?_⟩
    rw [close, Call.run_bind, hrun]
    rfl

theorem Cursor.run_dropLayers_spent (h : c.counted = 0) (layers : Nat) (m : Store α) :
    (c.dropLayers w layers).run m = ((), m) := by
  induction layers generalizing c with
  | zero => rfl
  | succ layers ih =>
    cases c with
    | plain feed provider head => rfl
    | managed j released inner =>
      obtain ⟨rfl, hinner⟩ := spent_managed h
      exact ih hinner
    | watched slot act inner => exact ih h

/-- The source reads through no cursor that is still held. -/
def Source.Spent (source : Source α) : Prop := ∀ c, source.cursor? = some c → c.counted = 0

theorem Source.run_close_spent {source : Source α} (h : source.Spent) :
    ∃ x : Outcome SourceError Unit × Source α, x.2.Spent ∧
      ∀ m : Store α, (source.closeUncounted w).run m = (x, m) := by
  cases source with
  | chain c =>
    obtain ⟨d, hd, hrun⟩ := Cursor.run_close_spent (w := w) (h c rfl)
    refine ⟨(.ok (), .chain d), fun c' hc' => ?_, fun m => ?_⟩
    · cases hc'
      exact hd
    · rw [closeUncounted, Call.run_bind, hrun]
      rfl
  | iterator items => exact ⟨(.ok (), .iterator none), nofun, fun _ => rfl⟩
  | script outcomes pulled hint closing =>
    exact ⟨(closing, .script outcomes pulled hint closing), nofun, fun _ => rfl⟩
  | bytes source item => exact ⟨(.ok (), .bytes source.close item), nofun, fun _ => rfl⟩

theorem Source.run_drop_spent {source : Source α} (h : source.Spent) (m : Store α) :
    (source.drop w).run m = ((), m) := by
  cases source with
  | chain c => exact Cursor.run_dropLayers_spent (h c rfl) _ m
  | iterator items => rfl
  | script outcomes pulled hint closing => rfl
  | bytes source item => rfl

def Feeds.Spent (s : Feeds α) (feed : Nat) : Prop := ∀ source, s.source? feed = some source → source.Spent

theorem Feeds.spent_setSource {s : Feeds α} {source : Source α} (h : source.Spent) :
    (s.setSource feed (some source)).Spent feed := by
  intro source' hs
  obtain ⟨x, hx, hsource⟩ := Option.bind_eq_some_iff.mp hs
  have hmodify : (s.cells[feed]?.map fun x => { x with source := some source }) = some x := by
    rw [← hx, setSource, Feeds.modify, Array.getElem?_modify, if_pos rfl]
  obtain ⟨x', -, rfl⟩ := Option.map_eq_some_iff.mp hmodify
  exact Option.some.inj hsource ▸ h

namespace Store

theorem untouched_setSource (hshut : m.feeds.isOpen feed = false) (source : Option (Source α)) :
    m.Untouched below { m with feeds := m.feeds.setSource feed source } := by
  refine .of_feeds fun other c hc => ?_
  rwa [Feeds.lent_setSource hshut] at hc

theorem untouched_dropSource (hshut : m.feeds.isOpen feed = false) (hspent : m.feeds.Spent feed) :
    m.Untouched below ((dropSource w feed).run m).2 := by
  rw [dropSource, Call.run_bind, Call.run_get]
  dsimp only
  cases hs : m.feeds.source? feed with
  | none => exact .refl m
  | some source =>
    dsimp only
    rw [Call.run_bind, Call.run_modify, source.run_drop_spent (hspent source hs)]
    exact untouched_setSource hshut none

theorem untouched_closeSource (hshut : m.feeds.isOpen feed = false) (hspent : m.feeds.Spent feed) :
    m.Untouched below ((closeSource w feed).run m).2 ∧
      ((closeSource w feed).run m).2.feeds.isOpen feed = false ∧
      ((closeSource w feed).run m).2.feeds.Spent feed := by
  rw [closeSource, Call.run_bind, Call.run_get]
  dsimp only
  cases hs : m.feeds.source? feed with
  | none => exact ⟨.refl m, hshut, hspent⟩
  | some source =>
    obtain ⟨x, hx, hrun⟩ := source.run_close_spent (w := w) (hspent source hs)
    dsimp only
    simp only [Source.close_eq, Call.run_bind, Call.run_modify, hrun, Call.run_pure]
    have hcount : m.feeds.Alike (m.feeds.count feed fun t => { t with closes := t.closes + 1 }) := .count _
    have hcounted : m.Untouched below { m with
        feeds := m.feeds.count feed fun t => { t with closes := t.closes + 1 } } :=
      .of_feeds fun other c hc => (hcount.lent other).symm.trans hc
    have hshut' := (hcount.isOpen feed).trans hshut
    exact ⟨hcounted.trans (untouched_setSource hshut' (some x.2)),
      (Feeds.isOpen_setSource ..).trans hshut', Feeds.spent_setSource hx⟩

theorem untouched_shutBuffer (hspent : ∀ c, m.feeds.lent feed = some c → c.counted = 0) :
    m.Untouched below ((closeBuffer w feed).run m).2 := by
  rw [closeBuffer, Call.run_bind, Call.run_get]
  dsimp only
  cases hb : m.feeds.buffer? feed with
  | none => exact .refl m
  | some b =>
    dsimp only
    split
    · exact .refl m
    · rename_i hnot
      have hopen : m.feeds.isOpen feed := by simp [Feeds.isOpen, hb, hnot]
      have hshut : (m.feeds.setBuffer feed (some b.close)).isOpen feed = false := by
        rw [Feeds.isOpen, Feeds.buffer?_setBuffer (Feeds.lt_of_isOpen hopen)]
        rfl
      have hsource : (m.feeds.setBuffer feed (some b.close)).Spent feed := by
        intro source hs c hc
        rw [Feeds.source?_setBuffer] at hs
        have hlent : m.feeds.lent feed = some c.bare := by
          rw [Feeds.lent, if_pos hopen, Feeds.chained, hs, Option.bind_some, hc]
          rfl
        exact (c.counted_bare).symm.trans (hspent c.bare hlent)
      have hclosed : m.Untouched below { m with feeds := m.feeds.setBuffer feed (some b.close) } := by
        refine .of_feeds fun other c hc => ?_
        rw [Feeds.lent_shut (b := b.close) rfl] at hc
        split at hc
        · cases hc
        · exact hc
      rw [Call.run_bind, Call.run_modify, Call.run_bind]
      refine hclosed.trans ((untouched_note (.bufferClosed b.consumed b.ownership) _).trans ?_)
      dsimp only
      generalize hm₁ : ((note (.bufferClosed b.consumed b.ownership)).run
        { m with feeds := m.feeds.setBuffer feed (some b.close) }).2 = m₁
      replace hshut : m₁.feeds.isOpen feed = false := hm₁ ▸ hshut
      replace hsource : m₁.feeds.Spent feed := hm₁ ▸ hsource
      split
      · obtain ⟨huntouched, hshut', hspent'⟩ := untouched_closeSource (w := w) hshut hsource
        exact huntouched.trans (untouched_dropSource hshut' hspent')
      · exact untouched_dropSource hshut hsource

theorem untouched_closeBuffer (hspent : ∀ c, m.feeds.lent feed = some c → c.counted = 0) (left : Nat) :
    m.Untouched below (((switches left).closeBuffer feed).run m).2 := by
  cases left with
  | zero => exact .refl m
  | succ left => exact untouched_shutBuffer hspent

end Store

end spent

section ending

variable {m : Store α} {own slot : Nat} {ending : Ending} {left : Nat}

theorem untouched_close {j : Janitor} (h : (m.janitor j.slot).closed) (left : Nat) :
    m.Untouched below (((switches left).close j).run m).2 := by
  rw [run_close_switches left h]
  exact .refl m

theorem untouched_demand {j : Janitor} (h : (m.janitor j.slot).released) (left : Nat) :
    m.Untouched below (((switches left).demand j).run m).2 := by
  rw [run_demand_switches left h]
  exact untouched_tally fun _ => rfl

theorem Store.Over.past (h : m.Over own ending slot) (hclosed : (m.janitor own).closed)
    (hreleased : (m.janitor own).released) : (m.janitor slot).past ending := by
  rcases h with rfl | h
  · cases ending with
    | close => exact hclosed
    | release => exact hreleased
  · exact h

theorem untouched_endOuter (hclosed : (m.janitor own).closed) (hreleased : (m.janitor own).released)
    (h : (Act.outer ending).Isolated m own slot) (left : Nat) :
    m.Untouched below (((switches left).endOuter slot ending).run m).2 := by
  rw [Switches.endOuter, Call.run_bind, Call.run_get]
  dsimp only
  cases ho : (m.script slot).outer with
  | none => exact .refl m
  | some o =>
    dsimp only
    rw [Call.run_bind, Call.run_get]
    dsimp only
    split
    · exact .refl m
    · rename_i hheld
      have hpast := ((h o ho).resolve_left hheld).past hclosed hreleased
      cases ending with
      | close => exact untouched_close hpast left
      | release => exact untouched_demand hpast left

theorem untouched_perform (hclosed : (m.janitor own).closed)
    (hreleased : (m.janitor own).released) {act : Act}
    (h : act.Isolated m own slot) (left : Nat) :
    m.Untouched below ((act.perform (switches left) slot).run m).2 := by
  cases act with
  | pass => exact .refl m
  | outer ending => exact untouched_endOuter hclosed hreleased h left
  | panic p => exact .refl m
  | fail cue => exact untouched_make cue m

theorem untouched_around {before after : Act} {f : Call α (Outcome StreamError Unit)}
    (hclosed : (m.janitor own).closed) (hreleased : (m.janitor own).released)
    (hbefore : before.Isolated m own slot) (hafter : after.Isolated m own slot)
    (hf : ∀ m', m.Untouched below m' → m'.Untouched below (f.run m').2) (left : Nat) :
    m.Untouched below ((before.around (switches left) slot after f).run m).2 := by
  refine .bind (untouched_perform hclosed hreleased hbefore left) fun x m₁ h₁ => ?_
  cases x with
  | error stop => exact .refl m₁
  | ok =>
    refine .bind (hf m₁ h₁) fun y m₂ h₂ => ?_
    cases y with
    | error stop => exact .refl m₂
    | ok =>
      have h := h₁.trans h₂
      exact untouched_perform (h.past own .close hclosed) (h.past own .release hreleased)
        (hafter.teardownMono h.toTeardownMono) left

/-- An isolated delegate affects no provider, its own janitor being marked already. -/
theorem untouched_finish {p : Provider} (hbase : below p.baseSlot) (h : p.Isolated m own ending)
    (hclosed : (m.janitor own).closed)
    (hreleased : (m.janitor own).released) (left : Nat) :
    m.Untouched below ((p.finish (switches left) ending).run m).2 := by
  induction p generalizing m with
  | base slot id feed =>
    cases ending with
    | close =>
      rw [Provider.finish, Provider.close_base, Call.run_bind, Call.run_get]
      dsimp only
      split
      · exact .refl m
      · exact (untouched_closeBase hbase m).trans (untouched_note _ _)
    | release =>
      have hclosing := untouched_closeBase hbase m
      exact hclosing.trans (untouched_closeBuffer (fun c hc => h rfl c (hclosing.lent feed c hc)) left)
  | managed slot statistics hook inner =>
    have hpast := Store.Over.past h hclosed hreleased
    cases ending with
    | close => exact untouched_close (j := ⟨slot, statistics, inner⟩) hpast left
    | release => exact untouched_demand (j := ⟨slot, statistics, inner⟩) hpast left
  | scripted slot script inner ih =>
    obtain ⟨hinner, hacts⟩ := h
    obtain ⟨hbefore, hafter⟩ := hacts _ le_rfl
    have hcall : m.Untouched below _ := untouched_call slot ending m
    rw [Provider.finish_scripted]
    refine hcall.trans (untouched_around (hcall.past own .close hclosed) (hcall.past own .release hreleased)
      (hbefore.teardownMono hcall.toTeardownMono) (hafter.teardownMono hcall.toTeardownMono)
        (fun m' hm' => ?_) left)
    have hall := hcall.trans hm'
    exact ih hbase (hinner.teardownMono hall.toTeardownMono) (hall.past own .close hclosed)
      (hall.past own .release hreleased)

end ending

end Replay
