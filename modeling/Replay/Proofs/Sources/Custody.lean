import Replay.Proofs.Contexts
import Replay.Proofs.Performing
import Replay.Proofs.Sources.Course

/-!
Runs over a buffer and its source. From the creation of the buffer on, an owned source is closed exactly
once, by the first call that closes the buffer, and a borrowed one never; only that call returns the
result of `Source::close`.
-/
namespace Replay

open Store

variable {α β : Type} {feed other : Nat}

namespace Feeds

variable {s s' : Feeds α} {k : Nat} {o : Ownership} {c : Feed α} {b : Buffer α} {source : Source α}

theorem BufferOpen.closing (h : s.BufferOpen feed k o) : ∃ source, s.source? feed = some source ∧
    s.closing feed = if o = .owned then source.answer else .ok () := by
  obtain ⟨c, b, source, hc, hb, hs, hopen, rfl, -⟩ := h.cell
  refine ⟨source, (source?_eq hc).trans hs, ?_⟩
  rw [Feeds.closing, buffer?_eq hc, hb]
  dsimp only
  rw [if_neg (Bool.not_eq_true _ ▸ hopen), source?_eq hc, hs]
  cases b.ownership with
  | owned => rfl
  | borrowed => rfl

theorem BufferClosed.closing (h : s.BufferClosed feed k o) : s.closing feed = .ok () := by
  obtain ⟨c, b, hc, hb, -, hclosed, -⟩ := h.cell
  rw [Feeds.closing, buffer?_eq hc, hb]
  exact if_pos hclosed

theorem BufferOpen.of_setBuffer (hc : s.cells[feed]? = some c) (hs : c.source = some source)
    (hb : b.status = (false, o)) : (s.setBuffer feed (some b)).BufferOpen feed c.tally.closes o := by
  rw [BufferOpen, terms, setBuffer, cell_modify hc, Option.map_some, hs, ← hb]
  rfl

theorem BufferOpen.of_terms (h : s.BufferOpen feed k o) (hs : s'.terms feed = s.terms feed) :
    s'.BufferOpen feed k o := hs.trans h

theorem bufferSteps_onBuffer {f : Buffer α → Feeds α → Outcome StreamError β × Buffer α × Feeds α}
    (hf : ∀ I, (tap draw other).Preserves I → ∀ b s, I s → I (f b s).2.2)
    (hstatus : ∀ b s, (f b s).2.1.status = b.status)
    (hrefuses : ∀ b e (s : Feeds α), b.refusal = some e → f b s = (.raise e, b, s)) (s : Feeds α) :
    s.BufferSteps feed (s.onBuffer other f).2 := by
  refine .of_reads (readsTo_onBuffer fun b s => ⟨hf _ (endsNothing_draw.preserves other s) b s (.refl s),
    hstatus b s⟩) (freezes_onBuffer (fun c b b' hb hclosed hne s hs => ?_) hrefuses s)
  exact hf _ (freezes_draw.preserves hne hb hclosed) b' s hs

theorem steps_readsTo : Steps (ReadsTo (α := α)) where
  refl := .refl
  trans := .trans
  note _ _ := ⟨rfl, fun _ => rfl, fun _ => rfl⟩

theorem reads_readsTo : Reads (ReadsTo (α := α)) where
  hasNext c _ := c.readsTo_hasNextBy endsNothing_draw
  next c _ := (c.readsTo_nextBy endsNothing_draw).1

end Feeds

namespace StoreOp

/-- The operation creates the buffer of `feed`. -/
def Makes (m : Store α) (feed : Nat) (o : Ownership) : StoreOp α → Prop
  | addBuffer config other => other = feed ∧ config.ownership = o ∧ config.validate = .ok ()
  | manage manager other _ => other = feed ∧ ∃ t, m.manager? manager = some t ∧
    t.config.ownership = o ∧ t.config.validate = .ok ()
  | _ => False

/-- The operation leaves the source to the buffer: it makes no second buffer over it and neither pulls
nor closes it directly. A drop of unreachable values does not include the buffer. -/
def LeavesSource (m : Store α) (feed : Nat) : StoreOp α → Prop
  | addBuffer _ other | manage _ other _ | pull other | closeSource other => other ≠ feed
  | settle held => feed ∈ (m.throughChains m.feeds.cells.size held).feeds
  | _ => True

def AllLeaveSource (feed : Nat) : Store α → List (StoreOp α) → Prop
  | _, [] => True
  | m, d :: ds => d.LeavesSource m feed ∧ AllLeaveSource feed (d.perform m) ds

/-- The operation closes and releases nothing. -/
def NonEnding : StoreOp α → Prop
  | addBuffer .. | manage .. | complete .. | dispose .. | openCursor _ | close _ | release _
  | releaseCursor .. | endProvider .. | drop _ | closeSource _ | closeBuffer _ | settle _ => False
  | cursorOp _ t => t.Reading
  | _ => True

/-- The operation closes the buffer of `feed`, if it is open. -/
def Closes (feed : Nat) : StoreOp α → Prop
  | closeBuffer other | endProvider (.base _ _ other) .release => other = feed
  | _ => False

variable {m : Store α} {d : StoreOp α} {o : Ownership} {k : Nat}

theorem AllLeaveSource.append {ds es : List (StoreOp α)} (h : AllLeaveSource feed m (ds ++ es)) :
    AllLeaveSource feed m ds ∧ AllLeaveSource feed (run m ds) es := by
  induction ds generalizing m with
  | nil => exact ⟨trivial, h⟩
  | cons d ds ih =>
    obtain ⟨hds, hes⟩ := ih h.2
    exact ⟨⟨h.1, hds⟩, hes⟩

theorem run_addBuffer {c : Feed α} {source : Source α} (w : Switches α) {config : Config}
    (hvalid : config.validate = .ok ()) (hc : m.feeds.cells[feed]? = some c)
    (hs : c.source = some source) : ∃ m', (Store.addBuffer w config feed).run m = (.ok (), m') ∧
      m'.feeds.BufferOpen feed c.tally.closes config.ownership := by
  obtain ⟨b, hb⟩ : ∃ b : Buffer α,
      Buffer.ofConfig config ((m.feeds.source? feed).bind m.feeds.announced) = .ok b := by
    rw [Buffer.ofConfig, hvalid]
    exact ⟨_, rfl⟩
  refine ⟨{ m with feeds := m.feeds.setBuffer feed (some b) }, ?_,
    .of_setBuffer hc hs (Buffer.status_ofConfig hb)⟩
  rw [Store.addBuffer, Call.run_bind, Call.run_get]
  dsimp only
  rw [hb]
  rfl

theorem bufferOpen_of_makes {c : Feed α} {source : Source α} (hmakes : d.Makes m feed o)
    (hc : m.feeds.cells[feed]? = some c) (hs : c.source = some source) :
    (d.perform m).feeds.BufferOpen feed c.tally.closes o := by
  cases d with
  | addBuffer config other =>
    obtain ⟨rfl, rfl, hvalid⟩ := hmakes
    obtain ⟨m', hm', hbegun⟩ := run_addBuffer (switches m.endings) hvalid hc hs
    rw [perform, afterWith_eq, hm']
    exact hbegun
  | manage manager other context =>
    obtain ⟨rfl, t, ht, rfl, hvalid⟩ := hmakes
    obtain ⟨m', hm', hbegun⟩ := run_addBuffer (switches m.endings) hvalid hc hs
    have hR := Feeds.steps_readsTo (α := α)
    have hrest : Call.Carries Feeds.ReadsTo (do
        let base ← Store.addBase other
        let p ← Manager.manageProvider manager base context
        return .ok p : Call α (Except StreamError (Option Provider))) :=
      hR.store.bind (hR.store.addBase other) fun base =>
        hR.store.bind (hR.manageProvider manager base context) fun _ => hR.store.pure _
    rw [perform, afterWith_eq, Manager.run_manage ht, hm']
    exact hbegun.of_terms ((hrest m').terms other)
  | _ => exact hmakes.elim

theorem bufferSteps_perform (h : d.LeavesSource m feed) : m.feeds.BufferSteps feed (d.perform m).feeds := by
  have hR : Feeds.Steps (Feeds.BufferSteps (α := α) feed) := Feeds.steps_bufferSteps
  have hapart : Feeds.AllowsOthers (Feeds.BufferSteps (α := α) feed) feed := Feeds.allowsOthers_bufferSteps
  have hw := fun left => carries_bufferSteps (α := α) feed left
  refine within_perform (S := OnFeeds (Feeds.BufferSteps feed)) ?_ hw Feeds.reads_bufferSteps
  cases d with
  | complete manager context => exact hR.forgets
  | dispose manager => exact hR.forgets
  | addSource source =>
    refine .of_cell fun c hc => ?_
    obtain ⟨hlt, hcell⟩ := Array.getElem?_eq_some_iff.mp hc
    exact (Array.getElem?_push_lt hlt).trans (congrArg some hcell)
  | addBuffer config other => exact ⟨hapart.allowsSource h, fun _ _ _ s => hapart other h _ s⟩
  | addManager config => exact hR.addManager config m
  | manageProvider manager inner context => exact hR.manageProvider manager inner context m
  | manage manager other context =>
    rw [Allowed, perform, afterWith_eq]
    exact (hw m.endings).manage (hapart.allowsSource h) (fun _ _ _ _ s => hapart other h _ s)
      manager context m
  | pull other => exact .of_reads (Feeds.endsNothing_draw other m.feeds) (Feeds.freezes_draw other h m.feeds)
  | hasNext other offset =>
    exact Feeds.bufferSteps_onBuffer (fun I hI b s => Buffer.hasNext_preserves hI offset)
      (fun b s => Buffer.status_hasNext offset)
      (fun b e s he => Buffer.hasNext_of_refusal he offset s) m.feeds
  | bucketFor other offset =>
    exact Feeds.bufferSteps_onBuffer (fun I hI b s => Buffer.bucketFor_preserves hI offset)
      (fun b s => Buffer.status_bucketFor offset)
      (fun b e s he => Buffer.bucketFor_of_refusal he offset s) m.feeds
  | closeSource other => exact hapart.allowsSource h
  | closeBuffer other =>
    rw [Allowed, perform, afterWith_eq]
    exact carries_closeBuffer feed m.endings other m
  | settle held =>
    refine fun other hout => hapart.allowsSource ?_
    rintro rfl
    exact hout h
  | addStatistics | addManaged | addJanitor => exact hR.refl m.feeds
  | _ => trivial

theorem bufferSteps_run {ds : List (StoreOp α)} (h : AllLeaveSource feed m ds) :
    m.feeds.BufferSteps feed (run m ds).feeds := by
  induction ds generalizing m with
  | nil => exact Feeds.steps_bufferSteps.refl m.feeds
  | cons d ds ih => exact Feeds.steps_bufferSteps.trans (bufferSteps_perform h.1) (ih h.2)

theorem bufferOpen_perform (h : d.NonEnding) (hbegun : m.feeds.BufferOpen feed k o) :
    (d.perform m).feeds.BufferOpen feed k o := by
  have hR := Feeds.steps_readsTo (α := α)
  suffices hsame : (d.perform m).feeds.terms feed = m.feeds.terms feed from hbegun.of_terms hsame
  obtain ⟨c, -, -, hc, -⟩ := hbegun.cell
  cases d with
  | addSource source =>
    obtain ⟨hlt, hcell⟩ := Array.getElem?_eq_some_iff.mp hc
    exact congrArg (Option.map _) ((Array.getElem?_push_lt hlt).trans (Array.getElem?_eq_getElem hlt).symm)
  | addManager config =>
    rw [perform, after, Store.addManager]
    split
    · rfl
    · rfl
  | manageProvider manager inner context =>
    exact (hR.manageProvider manager inner context m).terms feed
  | pull other => exact (Feeds.endsNothing_draw other m.feeds).terms feed
  | hasNext other offset =>
    exact (Feeds.readsTo_onBuffer fun b s => ⟨Buffer.hasNext_preserves
      (Feeds.endsNothing_draw.preserves other s) offset (.refl s), Buffer.status_hasNext offset⟩).terms feed
  | bucketFor other offset =>
    exact (Feeds.readsTo_onBuffer fun b s => ⟨Buffer.bucketFor_preserves
      (Feeds.endsNothing_draw.preserves other s) offset (.refl s), Buffer.status_bucketFor offset⟩).terms feed
  | cursorOp c t => exact (t.within_reading hR.store Feeds.reads_readsTo c h m).terms feed
  | addBase | addScripted | bindOuter | addStatistics | addProviderId | addManaged | addJanitor => rfl
  | _ => exact h.elim

theorem bufferOpen_run {ds : List (StoreOp α)} (h : ∀ d ∈ ds, d.NonEnding) (hbegun : m.feeds.BufferOpen feed k o) :
    (run m ds).feeds.BufferOpen feed k o := by
  induction ds generalizing m with
  | nil => exact hbegun
  | cons d ds ih =>
    exact ih (fun d' hd' => h d' (List.mem_cons_of_mem _ hd'))
      (bufferOpen_perform (h d List.mem_cons_self) hbegun)

end StoreOp

namespace Store

variable {m : Store α} {k : Nat} {o : Ownership} {c : Feed α} {b : Buffer α}

/-- The results of the calls that close the buffer, or release a provider of it. -/
structure ClosesWith (m : Store α) (feed : Nat) (r : Outcome SourceError Unit) : Prop where
  close : ∀ w, ((closeBuffer w feed).run m).1 = r
  release : ∀ slot id, ((withSwitches fun w => (Provider.base slot id feed).release w none).run m).1 =
    r.mapError .source

theorem run_releaseBase (w : Switches α) (slot : Nat) (id : ProviderId) :
    ((Provider.base slot id feed).release w none).run m =
      let (r, m') := (w.closeBuffer feed).run ((closeBase slot).run m).2
      (r.mapError .source, m') := rfl

theorem exists_endings (hc : m.feeds.cells[feed]? = some c) : ∃ left, m.endings = left + 1 := by
  have hlt := (Array.getElem?_eq_some_iff.mp hc).1
  exact Nat.exists_eq_succ_of_ne_zero (by unfold endings; omega)

theorem closesWith_closing (hc : m.feeds.cells[feed]? = some c) :
    m.ClosesWith feed (m.feeds.closing feed) where
  close w := answer_closeBuffer w feed m
  release slot id := by
    obtain ⟨left, hleft⟩ := exists_endings hc
    rw [Call.run_withSwitches, run_releaseBase, hleft]
    exact congrArg (Outcome.mapError StreamError.source)
      (answer_closeBuffer (switches left) feed ((closeBase slot).run m).2)

/-- The state of a buffer and its source, which was closed `k` times before the buffer was made. -/
structure Custody (m : Store α) (feed k : Nat) (o : Ownership) (c : Feed α) (b : Buffer α) : Prop where
  cell : m.feeds.cells[feed]? = some c
  buffer : c.buffer = some b
  ownership : b.ownership = o
  closes : c.tally.closes = k + if b.closed ∧ o = .owned then 1 else 0
  first : b.closed = false → ∃ source, c.source = some source ∧
    m.ClosesWith feed (if o = .owned then source.answer else .ok ())
  again : b.closed → m.ClosesWith feed (.ok ())
  shut : b.closed → b.published.size = 0 ∧ b.isClosed

theorem custody_of_bufferOpen (h : m.feeds.BufferOpen feed k o) :
    ∃ c b, m.Custody feed k o c b ∧ b.closed = false := by
  obtain ⟨c, b, -, hc, hb, -, hopen, ho, hcloses⟩ := h.cell
  obtain ⟨source, hs, hclosing⟩ := h.closing
  refine ⟨c, b, ⟨hc, hb, ho, ?_, fun _ => ⟨source, (Feeds.source?_eq hc).symm.trans hs,
    hclosing ▸ closesWith_closing hc⟩, ?_, ?_⟩, hopen⟩
  · rw [hcloses, hopen]
    rfl
  · exact fun hclosed => absurd (hopen.symm.trans hclosed) Bool.false_ne_true
  · exact fun hclosed => absurd (hopen.symm.trans hclosed) Bool.false_ne_true

theorem custody_of_bufferClosed (h : m.feeds.BufferClosed feed k o) :
    ∃ c b, m.Custody feed k o c b ∧ b.closed := by
  obtain ⟨c, b, hc, hb, hs, hclosed, ho, hpublished, hcloses⟩ := h.cell
  refine ⟨c, b, ⟨hc, hb, ho, ?_, fun hopen => ?_, fun _ => h.closing ▸ closesWith_closing hc,
    fun _ => ⟨?_, ?_⟩⟩, hclosed⟩
  · rw [hcloses, hclosed]
    simp
  · exact absurd (hopen.symm.trans hclosed) Bool.false_ne_true
  · rw [hpublished]
    rfl
  · rw [Buffer.isClosed, hclosed, Bool.true_or]

end Store

namespace StoreOp

variable {m : Store α} {d : StoreOp α} {o : Ownership} {k : Nat}

theorem bufferClosed_of_closes (h : d.Closes feed)
    (hm : m.feeds.BufferOpen feed k o ∨ m.feeds.BufferClosed feed k o) :
    (d.perform m).feeds.BufferClosed feed k o := by
  have hclose : ∀ (left : Nat) (m' : Store α), m'.feeds = m.feeds →
      ((Store.closeBuffer (switches left) feed).run m').2.feeds.BufferClosed feed k o := by
    intro left m' hm'
    rw [← hm'] at hm
    rcases hm with hbegun | hparted
    · exact (carries_freezes feed left).bufferClosed_closeBuffer hbegun
    · exact hparted.courses ((carries_freezes feed left).freezes_closeBuffer feed m')
  cases d with
  | closeBuffer other =>
    obtain rfl : other = feed := h
    rw [perform, afterWith_eq]
    exact hclose m.endings m rfl
  | endProvider p ending =>
    cases p with
    | base slot id other =>
      cases ending with
      | close => exact h.elim
      | release =>
        obtain rfl : other = feed := h
        have hcell : ∃ c, m.feeds.cells[other]? = some c := by
          rcases hm with hbegun | hparted
          · exact ⟨_, hbegun.cell.choose_spec.choose_spec.choose_spec.1⟩
          · exact ⟨_, hparted.cell.choose_spec.choose_spec.1⟩
        obtain ⟨c, hc⟩ := hcell
        obtain ⟨left, hleft⟩ := exists_endings hc
        rw [perform, afterWith_eq, run_releaseBase, hleft]
        exact hclose left ((closeBase slot).run m).2 rfl
    | managed => exact h.elim
    | scripted => exact h.elim
  | _ => exact h.elim

theorem bufferClosed_run {ds : List (StoreOp α)} (hleave : AllLeaveSource feed m ds)
    (hcloses : ∃ d ∈ ds, d.Closes feed)
    (hbegun : m.feeds.BufferOpen feed k o) : (run m ds).feeds.BufferClosed feed k o := by
  obtain ⟨d, hd, hcloses⟩ := hcloses
  obtain ⟨before, after, rfl⟩ := List.append_of_mem hd
  obtain ⟨hbefore, hd, hafter⟩ := hleave.append
  have hparted := bufferClosed_of_closes hcloses ((bufferSteps_run hbefore).bufferOpen k o hbegun)
  rw [run_append]
  exact hparted.courses (bufferSteps_run hafter).frozen

/-- From the creation of the buffer on, an owned source is closed exactly once if the buffer was closed,
and not otherwise. Only the first call to close the buffer returns the result of `Source::close`. A
closed buffer publishes no bucket, and its source is neither pulled nor closed again. -/
theorem custody {make : StoreOp α} {c : Feed α} {source : Source α} (hmakes : make.Makes m feed o)
    (hc : m.feeds.cells[feed]? = some c) (hs : c.source = some source) (ops later : List (StoreOp α))
    (hleave : AllLeaveSource feed (make.perform m) (ops ++ later)) :
    ∃ c' b, (run m (make :: ops)).Custody feed c.tally.closes o c' b ∧
      ((∀ d ∈ ops, d.NonEnding) → b.closed = false) ∧
      ((∃ d ∈ ops, d.Closes feed) → b.closed) ∧
      (b.closed → (run m (make :: ops ++ later)).feeds.cells[feed]? = some c') := by
  obtain ⟨hops, hlater⟩ := hleave.append
  have hmade := bufferOpen_of_makes hmakes hc hs
  have hlast : run m (make :: ops ++ later) = run (run m (make :: ops)) later := run_append ..
  rcases (bufferSteps_run hops).bufferOpen _ o hmade with hbegun | hparted
  · obtain ⟨c', b, hcustody, hopen⟩ := custody_of_bufferOpen hbegun
    have hnot : ¬b.closed := Bool.not_eq_true _ ▸ hopen
    refine ⟨c', b, hcustody, fun _ => hopen, fun hcloses => ?_, fun hclosed => absurd hclosed hnot⟩
    obtain ⟨c'', b', hcustody', hclosed⟩ := custody_of_bufferClosed (bufferClosed_run hops hcloses hmade)
    cases Option.some.inj (hcustody.cell.symm.trans hcustody'.cell)
    cases Option.some.inj (hcustody.buffer.symm.trans hcustody'.buffer)
    exact hclosed
  · obtain ⟨c', b, hcustody, hclosed⟩ := custody_of_bufferClosed hparted
    refine ⟨c', b, hcustody, fun hnonEnding => ?_, fun _ => hclosed, fun _ => ?_⟩
    · obtain ⟨c'', b', hcustody', hopen⟩ := custody_of_bufferOpen (bufferOpen_run hnonEnding hmade)
      cases Option.some.inj (hcustody.cell.symm.trans hcustody'.cell)
      cases Option.some.inj (hcustody.buffer.symm.trans hcustody'.buffer)
      exact hopen
    · rw [hlast]
      exact (bufferSteps_run hlater).frozen c' b hcustody.cell hcustody.buffer hclosed

/-- Two providers of one buffer, one under two managed providers, over a source that panics in `close`.
-/
theorem custody_two :
    let source : Source Nat := .playing #[.item 1, .item 2] none (.error (.panic ⟨some "stuck"⟩))
    let inner : Janitor := ⟨0, 0, .base 0 ⟨1⟩ 0⟩
    let outer : Janitor := ⟨1, 0, .managed 0 0 .plain inner.delegate⟩
    let m := run {} [.addSource source]
    let ops := [.addBase 0, .addBase 0, .addStatistics, .addManaged 0 .plain inner.delegate,
      .addManaged 0 .plain outer.delegate, .cursorOp (.plain 0 ⟨1⟩ {}) .next, .release outer,
      .endProvider (.base 1 ⟨2⟩ 0) .release]
    ∃ c b, (run m (.addBuffer ⟨1, 1, .unbounded, .owned⟩ 0 :: ops)).Custody 0 0 .owned c b ∧
      c.tally.closes = 1 ∧
      (run m (.addBuffer ⟨1, 1, .unbounded, .owned⟩ 0 :: ops ++ [.closeBuffer 0])).feeds.cells[0]? =
        some c := by
  intro source inner outer m ops
  have hmakes : Makes m 0 .owned (.addBuffer ⟨1, 1, .unbounded, .owned⟩ 0) := ⟨rfl, rfl, rfl⟩
  obtain ⟨c, b, hcustody, -, hcloses, hlater⟩ := custody hmakes rfl rfl ops [.closeBuffer 0]
    ⟨trivial, trivial, trivial, trivial, trivial, trivial, trivial, trivial, trivial, trivial⟩
  have hclosed : b.closed := hcloses ⟨_, List.mem_of_getElem? (i := 7) rfl, rfl⟩
  refine ⟨c, b, hcustody, ?_, hlater hclosed⟩
  rw [hcustody.closes, if_pos ⟨hclosed, rfl⟩]
  rfl

end StoreOp

end Replay
