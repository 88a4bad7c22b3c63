import Replay.Proofs.Accounts.Ending

/-!
Closing a buffer, and closing or releasing a janitor, keep counters and statistics exact, and so do all
switches. A closing buffer gives back the cursor lent to it, which is dropped with the source. A janitor
takes its open cursors off the statistics only after its delegate's call, which cannot have changed its
own counter.
-/
namespace Replay

open Store

variable {α β : Type} {r : Roster} {w : Switches α} {n q feed : Nat} {m m' : Store α} {j : Janitor}
  {L : Ledger} {k : Nat → Nat}

namespace Store

theorem lentCounts_congr {s s' : Feeds α} (hsize : s'.cells.size = s.cells.size)
    (hlent : ∀ feed, s'.lent feed = s.lent feed) : s'.lentCounts = s.lentCounts := by
  rw [Feeds.lentCounts, Feeds.lentCounts, hsize]
  exact Finset.sum_congr rfl fun feed _ => by rw [hlent]

theorem transfer_setSource (hshut : m.feeds.isOpen feed = false) (source : Option (Source α))
    (k : Nat → Nat) :
    Transfer r n m k { m with feeds := m.feeds.setSource feed source } k := by
  have hlent := Feeds.lent_setSource hshut source
  have hcounts : (m.feeds.setSource feed source).lentCounts = m.feeds.lentCounts :=
    lentCounts_congr (Feeds.size_modify ..) hlent
  have hnoneOpened : m.feeds.NoneOpened (m.feeds.setSource feed source) := by
    refine .modify fun c => ?_
    rfl
  have hframe : Frame n m { m with feeds := m.feeds.setSource feed source } := by
    refine ⟨rfl, rfl, rfl, hnoneOpened, fun other c hc => ?_, fun _ => rfl, fun _ _ => rfl,
      fun slot _ => ?_⟩
    · rwa [hlent] at hc
    · exact congrFun hcounts slot
  exact .of_account hframe (fun slot _ => congrFun hcounts slot) (fun _ _ => rfl) rfl k

theorem chainedCounts_eq {source : Source α} (h : m.feeds.source? feed = some source) :
    m.feeds.chainedCounts feed = source.cursor?.elim 0 Cursor.counted := by
  rw [Feeds.chainedCounts, Feeds.chained, h, Option.bind_some]
  cases source.cursor? with
  | none => rfl
  | some c => exact c.counted_bare

theorem under_of_chained {source : Source α} (h : m.feeds.source? feed = some source)
    (hunder : ∀ c, m.feeds.chained feed = some c → c.Under r n) :
    ∀ c, source.cursor? = some c → c.Under r n := by
  intro c hc
  refine (hunder c.bare ?_).of_bare (Cursor.bare_bare c).symm
  rw [Feeds.chained, h, Option.bind_some, hc]
  rfl

theorem transfer_closeBuffer {b : Buffer α} (hopen : m.feeds.isOpen feed)
    (hbelow : ∀ c, m.feeds.chained feed = some c → c.Below n) (k : Nat → Nat) :
    Transfer r n m k { m with feeds := m.feeds.setBuffer feed (some b.close) }
      (k + m.feeds.chainedCounts feed) := by
  have hlent : m.feeds.lentCounts = _ + m.feeds.chainedCounts feed :=
    Feeds.lentCounts_shut (b := b.close) hopen rfl
  have habove : ∀ slot, n ≤ slot → m.feeds.chainedCounts feed slot = 0 := by
    intro slot hslot
    rw [Feeds.chainedCounts]
    cases hc : m.feeds.chained feed with
    | none => rfl
    | some c => exact (hbelow c hc).counted_eq_zero hslot
  refine ⟨⟨rfl, rfl, rfl, .setBuffer rfl, fun other c hc => ?_, fun _ => rfl, fun _ _ => rfl,
    fun slot hslot => ?_⟩, fun slot hslot => ?_, fun q L hL => ?_⟩
  · rw [Feeds.lent_shut rfl] at hc
    split at hc
    · cases hc
    · exact hc
  · rw [hlent, Pi.add_apply, habove slot hslot, add_zero]
  · rw [Pi.add_apply, habove slot hslot, add_zero]
  · refine ⟨hL.made, fun slot hslot => ?_, hL.unclipped, hL.cursors, hL.providers, hL.exact⟩
    rw [Ledger.held_hold, Pi.add_apply]
    have hcounts := hL.open_eq slot hslot
    rw [hlent, Pi.add_apply, Ledger.held_hold] at hcounts
    change (m.janitor slot).openCursors =
      (m.feeds.setBuffer feed (some b.close)).lentCounts slot + _
    omega

end Store

namespace Switches.CountsExact

theorem closeSourceLayers (hw : w.CountsExact r) {source : Source α}
    (hsource : ∀ c, source.cursor? = some c → c.Under r n) :
    (source.closeUncounted w).Transfers r n (source.cursor?.elim 0 Cursor.counted)
      (fun x => x.2.cursor?.elim 0 Cursor.counted)
      fun x => ∀ c, x.2.cursor? = some c → c.Under r n := by
  cases source with
  | chain c =>
    refine (hw.closeLayers (hsource c rfl)).bind fun d hd => .pure rfl fun c' hc' => ?_
    cases hc'
    exact hd.under
  | iterator ahead => exact .pure rfl nofun
  | script outcomes pulled hint closing => exact .pure rfl nofun
  | bytes source item => exact .pure rfl nofun

theorem closeSource (hw : w.CountsExact r) (hm : r.Covers m) (hshut : m.feeds.isOpen feed = false)
    (hunder : ∀ c, m.feeds.chained feed = some c → c.Under r n) (k : Nat → Nat) :
    Transfer r n m (k + m.feeds.chainedCounts feed) ((Store.closeSource w feed).run m).2
        (k + ((Store.closeSource w feed).run m).2.feeds.chainedCounts feed) ∧
      ∀ c, ((Store.closeSource w feed).run m).2.feeds.chained feed = some c → c.Under r n := by
  cases hsource : m.feeds.source? feed with
  | none =>
    have hrun : (Store.closeSource w feed).run m = (.ok (), m) := by
      simp only [Store.closeSource, Call.run_bind, Call.run_get, hsource, Call.run_pure]
    rw [hrun]
    exact ⟨.refl r n m _, hunder⟩
  | some source =>
    have hcounted : Transfer r n m (k + m.feeds.chainedCounts feed)
        { m with feeds := m.feeds.count feed fun t => { t with closes := t.closes + 1 } }
        (k + m.feeds.chainedCounts feed) := .of_feeds (.count _) _
    obtain ⟨hclosed, hunder'⟩ :=
      hw.closeSourceLayers (under_of_chained hsource hunder) _ (hcounted.covers hm)
    rcases hx : (source.closeUncounted w).run
      { m with feeds := m.feeds.count feed fun t => { t with closes := t.closes + 1 } }
      with ⟨⟨outcome, source'⟩, m'⟩
    rw [hx] at hclosed hunder'
    have hrun : (Store.closeSource w feed).run m =
        (outcome, { m' with feeds := m'.feeds.setSource feed (some source') }) := by
      simp only [Store.closeSource, Source.close_eq, Call.run_bind, Call.run_get, hsource,
        Call.run_modify, hx, Call.run_pure]
    have hframe := hcounted.toFrame.trans hclosed.toFrame
    have hshut' : m'.feeds.isOpen feed = false := by
      rw [← Bool.not_eq_true] at hshut ⊢
      exact mt (hframe.feeds.isOpen feed) hshut
    have hlt : feed < m'.feeds.cells.size := by
      rw [hframe.feeds.size]
      by_contra hle
      simp [Feeds.source?, Array.getElem?_eq_none (Nat.le_of_not_lt hle)] at hsource
    have hchained := Feeds.chained_setSource hlt (some source')
    have hcounts : (m'.feeds.setSource feed (some source')).chainedCounts feed =
        source'.cursor?.elim 0 Cursor.counted := by
      rw [Feeds.chainedCounts, hchained, Option.bind_some]
      cases source'.cursor? with
      | none => rfl
      | some c => exact c.counted_bare
    rw [hrun]
    refine ⟨hcounted.trans ?_, fun c hc => ?_⟩
    · dsimp only
      rw [chainedCounts_eq hsource, hcounts, add_comm k, add_comm k]
      exact (hclosed.hold k).trans (transfer_setSource hshut' _ _)
    · dsimp only at hc
      rw [hchained, Option.bind_some, Option.map_eq_some_iff] at hc
      obtain ⟨c', hc', rfl⟩ := hc
      exact (hunder' c' hc').of_bare (Cursor.bare_bare c')

theorem dropSource (hw : w.CountsExact r) (hm : r.Covers m) (hshut : m.feeds.isOpen feed = false)
    (hunder : ∀ c, m.feeds.chained feed = some c → c.Under r n) (k : Nat → Nat) :
    Transfer r n m (k + m.feeds.chainedCounts feed) ((Store.dropSource w feed).run m).2 k := by
  cases hsource : m.feeds.source? feed with
  | none =>
    have hrun : (Store.dropSource w feed).run m = ((), m) := by
      simp only [Store.dropSource, Call.run_bind, Call.run_get, hsource, Call.run_pure]
    have hcounts : m.feeds.chainedCounts feed = 0 := by
      rw [Feeds.chainedCounts, Feeds.chained, hsource]
      rfl
    rw [hrun, hcounts, add_zero]
    exact .refl r n m k
  | some source =>
    have hrun : (Store.dropSource w feed).run m =
        (source.drop w).run { m with feeds := m.feeds.setSource feed none } := by
      simp only [Store.dropSource, Call.run_bind, Call.run_get, hsource, Call.run_modify]
    have hparted := transfer_setSource (r := r) (n := n) hshut none (k + m.feeds.chainedCounts feed)
    rw [hrun]
    refine hparted.trans ?_
    rw [chainedCounts_eq hsource]
    cases source with
    | chain c =>
      have hc : c.Under r n := under_of_chained hsource hunder c rfl
      have hdropped := ((hw.dropCursor hc) _ (hparted.covers hm)).1.hold k
      rwa [add_comm, zero_add] at hdropped
    | _ => exact .refl r n _ k

theorem partSource (hw : w.CountsExact r) (hm : r.Covers m) (hshut : m.feeds.isOpen feed = false)
    (hunder : ∀ c, m.feeds.chained feed = some c → c.Under r n) (ownership : Ownership)
    (k : Nat → Nat) :
    Transfer r n m (k + m.feeds.chainedCounts feed)
      ((do
        let outcome ← match ownership with
          | .owned => Store.closeSource w feed
          | .borrowed => pure (.ok ())
        Store.dropSource w feed
        return outcome : Call α (Outcome SourceError Unit)).run m).2 k := by
  cases ownership with
  | borrowed => exact hw.dropSource hm hshut hunder k
  | owned =>
    obtain ⟨hclosed, hunder'⟩ := hw.closeSource hm hshut hunder k
    have hshut' : ((Store.closeSource w feed).run m).2.feeds.isOpen feed = false := by
      rw [← Bool.not_eq_true] at hshut ⊢
      exact mt (hclosed.feeds.isOpen feed) hshut
    exact hclosed.trans (hw.dropSource (hclosed.covers hm) hshut' hunder' k)

theorem closeOpenBuffer (hw : w.CountsExact r) (hr : r.Sorted)
    (hbelow : ∀ c : Cursor, r.chains[feed]? = some (some c) → c.Below n) :
    (Store.closeBuffer w feed).Neutral r n := by
  intro m hm k
  rw [Store.closeBuffer, Call.run_bind, Call.run_get]
  dsimp only
  cases hb : m.feeds.buffer? feed with
  | none => exact .refl r n m k
  | some b =>
    dsimp only
    split
    · exact .refl r n m k
    · rename_i hclosed
      have hopen : m.feeds.isOpen feed := by simp [Feeds.isOpen, hb, hclosed]
      have hunder : ∀ c, m.feeds.chained feed = some c → c.Under r n := by
        intro c hc
        have hlent : m.feeds.lent feed = some c := (if_pos hopen).trans hc
        obtain ⟨k, hk⟩ := hr feed c (hm.lent feed c hlent)
        exact hk.lower (hbelow c (hm.lent feed c hlent))
      have hclose := transfer_closeBuffer (r := r) (b := b) hopen (fun c hc => (hunder c hc).below) k
      have hnote := neutral_note (n := n) (.bufferClosed b.consumed b.ownership) _
        (hclose.covers hm) (k + m.feeds.chainedCounts feed)
      obtain ⟨m₁, hm₁⟩ : ∃ m₁, m₁ = ((note (.bufferClosed b.consumed b.ownership)).run
        { m with feeds := m.feeds.setBuffer feed (some b.close) }).2 := ⟨_, rfl⟩
      have hdone := hclose.trans hnote
      rw [← hm₁] at hdone
      have hshut : m₁.feeds.isOpen feed = false := by
        have hclosed : (m.feeds.setBuffer feed (some b.close)).isOpen feed = false := by
          rw [Feeds.isOpen, Feeds.buffer?_setBuffer (Feeds.lt_of_isOpen hopen)]
          rfl
        rw [hm₁]
        exact hclosed
      have hchained : m₁.feeds.chained feed = m.feeds.chained feed := by
        rw [hm₁]
        exact Feeds.chained_setBuffer ..
      have hparted := hw.partSource (n := n) (hdone.covers hm) hshut (hchained ▸ hunder) b.ownership k
      rw [Feeds.chainedCounts, hchained] at hparted
      subst hm₁
      exact hdone.trans hparted

end Switches.CountsExact

section flags

theorem Janitor.Under.close (hj : j.Under r n) (hopen : (m.janitor j.slot).closed = false)
    (h : CountsExact r q (j.slot + 1) L m) :
    CountsExact r q (j.slot + 1) (L.owe 0 (if j.statistics = q then 1 else 0))
      (m.change j.slot fun t => { t with closed := true }) := by
  obtain ⟨hexact, hcounts, hclipped⟩ := hj.countsExact_succ.mp h
  have hlive : (m.janitor j.slot).live = 1 := by
    rw [JanitorState.live, hopen]
    rfl
  rw [hlive] at hexact
  refine (hj.countsExact_change (janitor_change_of_void rfl)).mpr ⟨?_, hcounts, hclipped⟩
  simp only [JanitorState.live, if_true, ite_self]
  simp only [Ledger.owe, add_zero] at hexact ⊢
  exact hexact

theorem Janitor.Under.release (hj : j.Under r n) (hopen : (m.janitor j.slot).released = false)
    (h : CountsExact r q (j.slot + 1) L m) :
    CountsExact r q (j.slot + 1)
      (L.owe (if j.statistics = q then (m.janitor j.slot).openCursors else 0) 0)
      (m.change j.slot fun t => { t with released := true }) := by
  obtain ⟨hexact, hcounts, hclipped⟩ := hj.countsExact_succ.mp h
  have hdue : (m.janitor j.slot).due = (m.janitor j.slot).openCursors := by
    rw [JanitorState.due, hopen]
    rfl
  rw [hdue] at hexact
  refine (hj.countsExact_change (janitor_change_of_void rfl)).mpr ⟨?_, hcounts, hclipped⟩
  simp only [JanitorState.due, if_true, ite_self]
  simp only [Ledger.owe, add_zero] at hexact ⊢
  exact hexact

/-- The change of a store while the delegate of a janitor is called: the ledger already has the
janitor's own entry. -/
structure Store.DelegateTransfer (r : Roster) (slot : Nat) (own : Nat → Ledger → Ledger) (m m' : Store α) :
    Prop where
  frame : Frame (slot + 1) m m'
  account : (m'.janitor slot).account = (m.janitor slot).account
  countsExact : ∀ q L, CountsExact r q (slot + 1) (own q L) m → CountsExact r q (slot + 1) L m'

theorem Store.DelegateTransfer.openCursors {slot : Nat} {own : Nat → Ledger → Ledger}
    (h : DelegateTransfer r slot own m m') :
    (m'.janitor slot).openCursors = (m.janitor slot).openCursors := congrArg Prod.fst h.account

theorem Store.Call.Neutral.delegateTransfer {step : Call α β} (hstep : step.Neutral r j.slot)
    (hm : r.Covers m) {f : JanitorState → JanitorState} (hf : ∀ t, (f t).account = t.account)
    (g : Statistics → Statistics) (e : Event) {own : Nat → Ledger → Ledger}
    (hg : ∀ q L (m : Store α), CountsExact r q (j.slot + 1) (own q L) m →
      CountsExact r q (j.slot + 1) L (m.charge j.statistics g)) :
    DelegateTransfer r j.slot own m
      ((note e).run ((step.run (m.change j.slot f)).2.charge j.statistics g)).2 := by
  have hnoted : Transfer r (j.slot + 1) m 0 (m.change j.slot f) 0 :=
    .change (Nat.lt_succ_self _) hf 0
  have hbelow := hstep _ (hnoted.covers hm) 0
  have hdone := hnoted.trans hbelow.succ
  have hcharged := hdone.toFrame.trans (frame_charge (p := j.statistics) (f := g))
  have htold := neutral_note (n := j.slot + 1) e _ (hcharged.covers hm) 0
  refine ⟨hcharged.trans htold.toFrame, ?_, fun q L hL => ?_⟩
  · change ((step.run (m.change j.slot f)).2.janitor j.slot).account = _
    rw [hbelow.above _ le_rfl]
    exact janitor_change_congr hf
  · exact htold.keeps (hg q L _ (hdone.keeps hL))

end flags

namespace Switches.CountsExact

theorem closeDelegate (hw : w.CountsExact r) (hj : j.Under r n) (hm : r.Covers m) :
    DelegateTransfer r j.slot (fun q L => L.owe 0 (if j.statistics = q then 1 else 0)) m
      ((j.closeDelegate w).run m).2 := by
  have hstep : Call.Neutral r j.slot (j.delegate.close w none >>= fun outcome =>
      Report.begun.record (α := α) j.id .closeProvider outcome) :=
    .bind (hw.closeProvider hj.delegate) fun _ => neutral_record _ _ _ _
  rw [Janitor.closeDelegate_eq]
  exact hstep.delegateTransfer hm (f := fun t => { t with closings := t.closings + 1 }) (fun _ => rfl) _
    (.managedProviderClosed j.id) fun q L m hL => hL.closeProvider

theorem releaseDelegate (hw : w.CountsExact r) (hj : j.Under r n) (report : Report) (hm : r.Covers m) :
    DelegateTransfer r j.slot
      (fun q L => L.owe (if j.statistics = q then (m.janitor j.slot).openCursors else 0) 0) m
      ((j.releaseDelegate w report).run m).2 := by
  have hstep : Call.Neutral r j.slot (j.delegate.release w none >>= fun outcome =>
      report.record (α := α) j.id .releaseProvider outcome) :=
    .bind (hw.releaseProvider hj.delegate) fun _ => neutral_record _ _ _ _
  have hnoted : Frame j.slot.succ m
      (m.change j.slot fun t => { t with releasings := t.releasings + 1 }) :=
    .change (Nat.lt_succ_self _) _
  have hbelow := (hstep _ (hnoted.covers hm) 0).above j.slot le_rfl
  rcases hx : (j.delegate.release w none >>= fun outcome =>
    report.record (α := α) j.id .releaseProvider outcome).run
      (m.change j.slot fun t => { t with releasings := t.releasings + 1 }) with ⟨report', m₁⟩
  rw [hx] at hbelow
  have hopen : (m₁.janitor j.slot).openCursors = (m.janitor j.slot).openCursors := by
    rw [hbelow]
    exact janitor_change_congr fun _ => rfl
  have hdelegateTransfer :=
    hstep.delegateTransfer hm (f := fun t => { t with releasings := t.releasings + 1 })
    (fun _ => rfl) (·.closeCursors (m.janitor j.slot).openCursors)
    (.resourcesReleased j.id (m.janitor j.slot).openCursors report'.faults.length)
    fun q L m hL => hL.closeCursors
  rw [hx] at hdelegateTransfer
  have hrun : ((j.releaseDelegate w report).run m).2 =
      ((note (.resourcesReleased j.id (m.janitor j.slot).openCursors report'.faults.length)).run
        (m₁.charge j.statistics (·.closeCursors (m.janitor j.slot).openCursors))).2 := by
    simp only [Call.run_bind] at hx
    simp only [Janitor.releaseDelegate_eq, Call.run_bind, run_onJanitor, hx, Call.run_get,
      run_onStatistics, Call.run_pure, hopen]
  rw [hrun]
  exact hdelegateTransfer

theorem closeJanitor (hw : w.CountsExact r) (hj : j.Under r n) : (j.close w).NeutralBelow r j.slot := by
  intro m hm
  cases hopen : (m.janitor j.slot).closed with
  | true =>
    rw [Janitor.run_close_of_closed hopen]
    exact .refl r _ m
  | false =>
    have hflagged : Frame (j.slot + 1) m (m.change j.slot fun t => { t with closed := true }) :=
      .change (Nat.lt_succ_self _) _
    have hdelegate := hw.closeDelegate hj (hflagged.covers hm)
    rcases hrun : (j.closeDelegate w).run (m.change j.slot fun t => { t with closed := true })
      with ⟨report, m'⟩
    rw [hrun] at hdelegate
    have hsame : ((m.change j.slot fun t => { t with closed := true }).janitor j.slot).openCursors =
        (m.janitor j.slot).openCursors := janitor_change_congr fun _ => rfl
    have hdone : TransferBelow r j.slot m m' := by
      refine ⟨fun k => ⟨hflagged.trans hdelegate.frame, fun _ _ => rfl, fun q L hL => ?_⟩, ?_⟩
      · exact hdelegate.countsExact q _ (hj.close hopen hL)
      · exact hdelegate.openCursors.trans hsame
    simp only [Janitor.close, Call.run_bind, Call.run_get, hopen, Bool.false_eq_true, if_false,
      run_onJanitor, hrun]
    by_cases hzero : (m'.janitor j.slot).openCursors = 0
    · simp only [hzero, if_true]
      exact hdone.trans (hw.release hj _ ((hdone.transfer 0).covers hm))
    · simp only [hzero, if_false]
      exact hdone

theorem releaseJanitor (hw : w.CountsExact r) (hj : j.Under r n) : (j.release w).NeutralBelow r j.slot := by
  intro m hm
  cases hopen : (m.janitor j.slot).released with
  | true =>
    rw [Janitor.run_release_of_released hopen]
    exact .refl r _ m
  | false =>
    have hflagged : Frame (j.slot + 1) m (m.change j.slot fun t => { t with released := true }) :=
      .change (Nat.lt_succ_self _) _
    have hclose := hw.close hj _ (hflagged.covers hm)
    rcases hrun : (w.close j).run (m.change j.slot fun t => { t with released := true })
      with ⟨report, m₁⟩
    rw [hrun] at hclose
    have hframe := hflagged.trans (hclose.transfer 0).toFrame
    have hdelegate := hw.releaseDelegate hj (Report.begun.merge report) (hframe.covers hm)
    have hsame : (m₁.janitor j.slot).openCursors = (m.janitor j.slot).openCursors := by
      refine hclose.openCursors.trans (janitor_change_congr fun _ => ?_)
      rfl
    simp only [Janitor.release, Call.run_bind, Call.run_get, hopen, Bool.false_eq_true, if_false,
      run_onJanitor, hrun]
    refine ⟨fun k => ⟨hframe.trans hdelegate.frame, fun _ _ => rfl, fun q L hL => ?_⟩, ?_⟩
    · refine hdelegate.countsExact q _ ?_
      rw [hsame]
      exact (hclose.transfer 0).keeps (hj.release hopen hL)
    · exact hdelegate.openCursors.trans hsame

end Switches.CountsExact

theorem countsExact_switches (hr : r.Sorted) (left : Nat) : (switches left : Switches α).CountsExact r := by
  induction left with
  | zero => exact ⟨fun _ m _ => .refl r _ m, fun _ m _ => .refl r _ m, fun _ => .pure _⟩
  | succ left ih => exact ⟨ih.closeJanitor, ih.releaseJanitor, ih.closeOpenBuffer hr⟩

end Replay
