import Replay.Proofs.Janitor.StoreOps
import Replay.Proofs.Sources.Frozen

/-!
The source of a buffer over time. The buffer holds it until close; then `Source::close` is called once
if it is owned, and a borrowed source is only dropped. Nothing happens to the feed after that.
-/
namespace Replay

open Store

variable {α β : Type} {feed other : Nat}

/-- What `Source::close` returns. -/
def Source.answer : Source α → Outcome SourceError Unit
  | script _ _ _ closing => closing
  | _ => .ok ()

theorem Source.answer_close (w : Switches α) (source : Source α) (m : Store α) :
    ((source.close w feed).run m).1.1 = source.answer := by
  cases source with
  | _ => rfl

/-- What closing the buffer of a feed returns. -/
def Feeds.closing (s : Feeds α) (feed : Nat) : Outcome SourceError Unit :=
  match s.buffer? feed with
  | none => .ok ()
  | some b =>
    if b.closed then .ok ()
    else match b.ownership with
      | .owned => (s.source? feed).elim (.ok ()) Source.answer
      | .borrowed => .ok ()

theorem Store.answer_closeSource (w : Switches α) (feed : Nat) (m : Store α) :
    ((Store.closeSource w feed).run m).1 = (m.feeds.source? feed).elim (.ok ()) Source.answer := by
  rw [Store.closeSource, Call.run_bind, Call.run_get]
  dsimp only
  cases m.feeds.source? feed with
  | none => rfl
  | some source => exact source.answer_close w _

theorem Store.answer_closeBuffer (w : Switches α) (feed : Nat) (m : Store α) :
    ((Store.closeBuffer w feed).run m).1 = m.feeds.closing feed := by
  rw [Store.closeBuffer, Call.run_bind, Call.run_get, Feeds.closing]
  dsimp only
  cases m.feeds.buffer? feed with
  | none => rfl
  | some b =>
    dsimp only
    split
    · rfl
    · simp only [Call.run_bind, Call.run_modify]
      cases b.ownership with
      | borrowed => rfl
      | owned =>
        refine (answer_closeSource w feed _).trans (congrArg (Option.elim · _ _) ?_)
        change (m.feeds.setBuffer feed (some b.close)).source? feed = m.feeds.source? feed
        exact Feeds.source?_setBuffer ..

/-- The feed after its buffer was closed. -/
def Feed.ended (c : Feed α) (b : Buffer α) : Feed α where
  source := none
  tally := match b.ownership with
    | .owned => { c.tally with closes := c.tally.closes + 1 }
    | .borrowed => c.tally
  buffer := some b.close

namespace Switches.Carries

variable {w : Switches α} {m : Store α} {c : Feed α} {b : Buffer α} {source : Source α}

theorem cell_dropSource (hw : w.Carries (Feeds.Freezes feed)) (hc : m.feeds.cells[feed]? = some c)
    (hb : c.buffer = some b) (hclosed : b.closed) (hs : c.source = some source) :
    ((Store.dropSource w feed).run m).2.feeds.cells[feed]? = some { c with source := none } := by
  have hsource : m.feeds.source? feed = some source := (Feeds.source?_eq hc).trans hs
  simp only [Store.dropSource, Call.run_bind, Call.run_get, hsource, Call.run_modify]
  exact hw.dropSourceLayers source _ _ b (Feeds.cell_modify hc _) hb hclosed

theorem cell_closeSource (hw : w.Carries (Feeds.Freezes feed)) (hc : m.feeds.cells[feed]? = some c)
    (hb : c.buffer = some b) (hclosed : b.closed) (hs : c.source = some source) :
    ∃ source', ((Store.closeSource w feed).run m).2.feeds.cells[feed]? = some
      { c with source := some source', tally := { c.tally with closes := c.tally.closes + 1 } } := by
  have hsource : m.feeds.source? feed = some source := (Feeds.source?_eq hc).trans hs
  simp only [Store.closeSource, Source.close_eq, Call.run_bind, Call.run_get, hsource, Call.run_modify,
    Call.run_pure]
  have hcounted := Feeds.cell_modify hc
    fun c => { c with tally := { c.tally with closes := c.tally.closes + 1 } }
  have hstill := hw.closeSourceLayers source
    { m with feeds := m.feeds.count feed (fun t => { t with closes := t.closes + 1 }) } _ b hcounted
    hb hclosed
  exact ⟨_, Feeds.cell_modify hstill _⟩

theorem cell_closeBuffer (hw : w.Carries (Feeds.Freezes feed)) (hc : m.feeds.cells[feed]? = some c)
    (hb : c.buffer = some b) (hopen : b.closed = false) (hs : c.source = some source) :
    ((Store.closeBuffer w feed).run m).2.feeds.cells[feed]? = some (c.ended b) := by
  have hbuffer : m.feeds.buffer? feed = some b := (Feeds.buffer?_eq hc).trans hb
  simp only [Store.closeBuffer, Call.run_bind, Call.run_get, hbuffer, hopen, Bool.false_eq_true,
    if_false, Call.run_modify, Feed.ended]
  obtain ⟨m₁, hm₁⟩ : ∃ m₁, m₁ = ((note (.bufferClosed b.consumed b.ownership)).run
    { m with feeds := m.feeds.setBuffer feed (some b.close) }).2 := ⟨_, rfl⟩
  have hshut : m₁.feeds.cells[feed]? = some { c with buffer := some b.close } := by
    rw [hm₁]
    exact Feeds.cell_modify hc _
  rw [← hm₁]
  cases b.ownership with
  | borrowed => exact hw.cell_dropSource hshut rfl rfl hs
  | owned =>
    obtain ⟨source', hclosed⟩ := hw.cell_closeSource hshut rfl rfl hs
    exact hw.cell_dropSource hclosed rfl rfl rfl

end Switches.Carries

namespace Feeds

variable {s s' : Feeds α} {k : Nat} {o : Ownership}

/-- The buffer of `feed` is open; its source was closed `k` times before the buffer was made. -/
def BufferOpen (s : Feeds α) (feed k : Nat) (o : Ownership) : Prop :=
  s.terms feed = some ⟨true, k, some (false, o)⟩

structure BufferClosed (s : Feeds α) (feed k : Nat) (o : Ownership) : Prop where
  terms : s.terms feed = some ⟨false, k + if o = .owned then 1 else 0, some (true, o)⟩
  published : ∀ b, s.buffer? feed = some b → b.published = #[]

theorem BufferOpen.cell (h : s.BufferOpen feed k o) : ∃ c b source, s.cells[feed]? = some c ∧
    c.buffer = some b ∧ c.source = some source ∧ b.closed = false ∧ b.ownership = o ∧
      c.tally.closes = k := by
  obtain ⟨c, hc, hterms⟩ := Option.map_eq_some_iff.mp h
  injection hterms with hsourced hcloses hbuffer
  obtain ⟨b, hb, hstatus⟩ := Option.map_eq_some_iff.mp hbuffer
  obtain ⟨source, hs⟩ := Option.isSome_iff_exists.mp hsourced
  exact ⟨c, b, source, hc, hb, hs, congrArg Prod.fst hstatus, congrArg Prod.snd hstatus, hcloses⟩

theorem BufferClosed.cell (h : s.BufferClosed feed k o) : ∃ c b, s.cells[feed]? = some c ∧ c.buffer = some b ∧
    c.source = none ∧ b.closed ∧ b.ownership = o ∧ b.published = #[] ∧
      c.tally.closes = k + if o = .owned then 1 else 0 := by
  obtain ⟨c, hc, hterms⟩ := Option.map_eq_some_iff.mp h.terms
  injection hterms with hsourced hcloses hbuffer
  obtain ⟨b, hb, hstatus⟩ := Option.map_eq_some_iff.mp hbuffer
  exact ⟨c, b, hc, hb, Option.isSome_eq_false_iff.mp hsourced |> Option.isNone_iff_eq_none.mp,
    congrArg Prod.fst hstatus, congrArg Prod.snd hstatus,
    h.published b ((buffer?_eq hc).trans hb), hcloses⟩

theorem BufferClosed.of_cell {c : Feed α} {b : Buffer α} (hc : s.cells[feed]? = some (c.ended b)) :
    s.BufferClosed feed c.tally.closes b.ownership := by
  refine ⟨?_, fun b' hb' => ?_⟩
  · rw [Feeds.terms, hc]
    cases ho : b.ownership <;> simp [Feed.ended, Buffer.status, Buffer.close, ho]
  · rw [buffer?_eq hc] at hb'
    cases hb'
    rfl

/-- The possible changes of a feed with a buffer. -/
structure BufferSteps (feed : Nat) (s s' : Feeds α) : Prop where
  frozen : s.Freezes feed s'
  bufferOpen : ∀ k o, s.BufferOpen feed k o → s'.BufferOpen feed k o ∨ s'.BufferClosed feed k o

theorem BufferClosed.freezes (h : s.BufferClosed feed k o) (hs : s.Freezes feed s') :
    s'.cells[feed]? = s.cells[feed]? := by
  obtain ⟨c, b, hc, hb, -, hclosed, -⟩ := h.cell
  rw [hc]
  exact hs c b hc hb hclosed

theorem BufferClosed.courses (h : s.BufferClosed feed k o) (hs : s.Freezes feed s') :
    s'.BufferClosed feed k o := by
  have hcell := h.freezes hs
  refine ⟨?_, fun b hb => h.published b ?_⟩
  · rw [Feeds.terms, hcell]
    exact h.terms
  · rw [buffer?, ← hcell]
    exact hb

theorem BufferSteps.of_cell (h : ∀ c, s.cells[feed]? = some c → s'.cells[feed]? = some c) :
    s.BufferSteps feed s' := by
  refine ⟨fun c _ hc _ _ => h c hc, fun k o hbegun => .inl ?_⟩
  obtain ⟨c, hc, hterms⟩ := Option.map_eq_some_iff.mp hbegun
  rw [BufferOpen, Feeds.terms, h c hc]
  exact congrArg some hterms

theorem allowsOthers_bufferSteps : AllowsOthers (BufferSteps (α := α) feed) feed :=
  fun _ hne _ _ => .of_cell fun _ hc => (cell_modify_of_ne hne _).trans hc

theorem steps_bufferSteps : Steps (BufferSteps (α := α) feed) where
  refl _ := .of_cell fun _ hc => hc
  trans h h' := by
    refine ⟨steps_freezes.trans h.frozen h'.frozen, fun k o hbegun => ?_⟩
    rcases h.bufferOpen k o hbegun with hbegun | hparted
    · exact h'.bufferOpen k o hbegun
    · exact .inr (hparted.courses h'.frozen)
  note _ _ := .of_cell fun _ hc => hc

theorem BufferSteps.of_reads (hreads : s.ReadsTo s') (hfrozen : s.Freezes feed s') :
    s.BufferSteps feed s' :=
  ⟨hfrozen, fun _ _ hbegun => .inl ((hreads.terms feed).trans hbegun)⟩

theorem reads_bufferSteps : Reads (BufferSteps (α := α) feed) where
  hasNext c s := .of_reads (c.readsTo_hasNextBy endsNothing_draw) (reads_freezes.hasNext c s)
  next c s := .of_reads (c.readsTo_nextBy endsNothing_draw).1 (reads_freezes.next c s)

end Feeds

theorem Switches.Carries.bufferClosed_closeBuffer {w : Switches α} (hw : w.Carries (Feeds.Freezes feed))
    {m : Store α} {k : Nat} {o : Ownership} (h : m.feeds.BufferOpen feed k o) :
    ((Store.closeBuffer w feed).run m).2.feeds.BufferClosed feed k o := by
  obtain ⟨c, b, source, hc, hb, hs, hopen, rfl, rfl⟩ := h.cell
  exact .of_cell (hw.cell_closeBuffer hc hb hopen hs)

theorem carries_bufferSteps (feed left : Nat) :
    (switches left : Switches α).Carries (Feeds.BufferSteps feed) := by
  refine .switches Feeds.steps_bufferSteps.store (fun left hw other => ?_) left
  by_cases hne : other = feed
  · subst hne
    have hfreezes := carries_freezes (α := α) other left
    exact fun m => ⟨hfreezes.freezes_closeBuffer other m, fun k o hbegun =>
      .inr (hfreezes.bufferClosed_closeBuffer hbegun)⟩
  · exact hw.closeOther Feeds.allowsOthers_bufferSteps hne

theorem carries_closeBuffer (feed left other : Nat) :
    (Store.closeBuffer (switches left : Switches α) other).Carries (Feeds.BufferSteps feed) :=
  (carries_bufferSteps feed (left + 1)).closeBuffer other

end Replay
