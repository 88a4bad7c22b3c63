import Replay.Proofs.Towers.Sharing

/-!
Teardown below a janitor has the same effects in two stores that agree there. This is shown of each
call, assuming it of the switches given to the call, and of the switches by induction on their number.
Where one store has no switch left nothing is pending, and the other has nothing to do.
-/
namespace Replay

open Store

variable {α : Type} {r : Roster} {n k a b feed : Nat} {m m' : Store α} {w w' : Switches α} {j : Janitor}

theorem Store.shut_of_pending (h : m.pending = 0) (feed : Nat) : m.feeds.isOpen feed = false := by
  obtain ⟨-, hcount⟩ : (_ = 0 ∧ _ = 0) ∧ _ = 0 := by
    simpa only [pending, Nat.add_eq_zero_iff] using h
  rw [← Bool.not_eq_true]
  intro hopen
  exact (Nat.count_iff_forall_not.mp hcount) feed (Feeds.lt_of_isOpen hopen) hopen

/-- The two sets of switches have the same effects on stores that agree below a janitor. -/
structure Switches.Matches (w w' : Switches α) (r : Roster) (a b : Nat) : Prop where
  countsExact : w.CountsExact r
  close : ∀ {j n}, j.Under r n → (w.close j).Along (Paired r n a b) (w'.close j)
  release : ∀ {j n}, j.Under r n → (w.release j).Along (Paired r n a b) (w'.release j)
  closeBuffer : ∀ {feed n}, (∀ c : Cursor, r.chains[feed]? = some (some c) → c.Below n) →
    (w.closeBuffer feed).Along (Paired r n a b) (w'.closeBuffer feed)

theorem along_record (report : Report) (provider : ProviderId) (stage : Stage)
    (outcome : Outcome StreamError Unit) :
    (report.record (α := α) provider stage outcome).Along (Paired r n a b)
      (report.record provider stage outcome) := by
  unfold Report.record
  split
  · exact .pure _
  · exact .bind (along_note _) fun _ => .pure _

theorem Act.NonReentrant.along {act : Act} (h : act.NonReentrant) (w w' : Switches α) (slot : Nat) :
    (act.perform w slot).Along (Paired r n a b) (act.perform w' slot) := by
  cases act with
  | pass => exact .pure _
  | outer ending => exact h.elim
  | panic p => exact .pure _
  | fail cue =>
    refine .bind ?_ fun _ => .pure _
    cases cue with
    | fixed e => exact .pure _
    | providerClosed => exact .bind along_newProviderId fun _ => .pure _

namespace Switches.Matches

theorem demand (hw : w.Matches w' r a b) (hj : j.Under r n) :
    (w.demand j).Along (Paired r n a b) (w'.demand j) :=
  .bind (along_onJanitor (fun _ _ h => h) (fun _ => id) fun _ => id) fun _ => hw.release hj

theorem closeProvider (hw : w.Matches w' r a b) {p : Provider} (hp : p.Under r n) :
    (p.close w none).Along (Paired r n a b) (p.close w' none) := by
  induction p with
  | base slot id feed =>
    refine .bind (.pure _) fun _ => ?_
    refine .get fun m m' h => ?_
    rw [h.baseClosed slot]
    split
    · exact .pure _
    · refine .bind (along_closeBase slot) fun _ => ?_
      refine .bind (along_note _) fun _ => ?_
      exact .pure _
  | managed slot statistics hook inner =>
    refine .bind (.pure _) fun _ => ?_
    refine .bind (.map _ (hw.close (Provider.under_managed.mp hp).2)) fun _ => ?_
    exact .pure _
  | scripted slot script inner ih =>
    refine .bind (.pure _) fun _ => ?_
    refine .get fun m m' h => ?_
    rw [h.script slot]
    refine .bind (along_onScript slot fun _ => rfl) fun _ => ?_
    refine .bind ((hp.1.onClose _).along w w' slot) fun x => ?_
    cases x with
    | error stop => exact .pure _
    | ok =>
      refine .bind (ih hp.2) fun x => ?_
      cases x with
      | error stop => exact .pure _
      | ok => exact (hp.1.afterClose _).along w w' slot

theorem releaseProvider (hw : w.Matches w' r a b) {p : Provider} (hp : p.Under r n) :
    (p.release w none).Along (Paired r n a b) (p.release w' none) := by
  induction p with
  | base slot id feed =>
    obtain ⟨chain, hchain, hbelow⟩ := hp
    have hbuffer : (w.closeBuffer feed).Along (Paired r n a b) (w'.closeBuffer feed) := by
      refine hw.closeBuffer fun c hc => ?_
      rw [hchain] at hc
      exact hbelow c (Option.some.inj hc)
    refine .bind (.pure _) fun _ => ?_
    refine .bind (along_closeBase slot) fun _ => ?_
    refine .bind hbuffer fun _ => ?_
    exact .pure _
  | managed slot statistics hook inner =>
    refine .bind (.pure _) fun _ => ?_
    refine .bind (.map _ (hw.demand (Provider.under_managed.mp hp).2)) fun _ => ?_
    exact .pure _
  | scripted slot script inner ih =>
    refine .bind (.pure _) fun _ => ?_
    refine .get fun m m' h => ?_
    rw [h.script slot]
    refine .bind (along_onScript slot fun _ => rfl) fun _ => ?_
    refine .bind ((hp.1.onRelease _).along w w' slot) fun x => ?_
    cases x with
    | error stop => exact .pure _
    | ok =>
      refine .bind (ih hp.2) fun x => ?_
      cases x with
      | error stop => exact .pure _
      | ok => exact (hp.1.afterRelease _).along w w' slot

theorem countOut (hw : w.Matches w' r a b) (hj : j.Under r n) (report : Report) :
    (j.countOut w report).Along (Paired r n a b) (j.countOut w' report) := by
  refine .get fun m m' h => ?_
  refine .bind (along_onJanitor (fun _ _ => JanitorState.unasked_countDown) (fun _ => id) fun _ => id)
    fun _ => ?_
  refine .get fun m₁ m₁' h₁ => ?_
  rw [h.openCursors hj.slot, h₁.closed hj.slot]
  split
  · exact .bind (hw.release hj) fun _ => .pure _
  · exact .pure _

theorem releaseCursor (hw : w.Matches w' r a b) (hj : j.Under r n)
    {step step' : Call α (Outcome StreamError Unit × Cursor)}
    (hstep : step.Along (Paired r n a b) step') :
    (j.releaseCursor w step).Along (Paired r n a b) (j.releaseCursor w' step') := by
  have hrest : Call.Along (Paired r n a b) (do
      let x ← step
      let report ← Report.begun.record j.id .releaseCursor x.1
      return (← j.countOut w report, x.2)) (do
      let x ← step'
      let report ← Report.begun.record j.id .releaseCursor x.1
      return (← j.countOut w' report, x.2)) := by
    refine .bind hstep fun _ => ?_
    refine .bind (along_record _ _ _ _) fun _ => ?_
    refine .bind (hw.countOut hj _) fun _ => ?_
    exact .pure _
  refine .get fun m m' h => ?_
  rw [h.released hj.slot]
  split
  · exact .bind (along_onStatistics _ _) fun _ => hrest
  · exact hrest

theorem releaseLayers (hw : w.Matches w' r a b) {c : Cursor} (hc : c.Under r n) :
    (c.release w).Along (Paired r n a b) (c.release w') := by
  induction c generalizing n with
  | plain feed provider head => exact .pure _
  | managed janitor released inner ih =>
    unfold Cursor.release
    split
    · exact .pure _
    · exact .bind (hw.releaseCursor hc.1 (ih (hc.2.mono hc.1.slot.le))) fun _ => .pure _
  | watched slot act inner ih =>
    refine .bind (hc.1.along w w' slot) fun x => ?_
    split
    · exact .pure _
    · exact .bind (ih hc.2) fun _ => .pure _

theorem under_close (hw : w.Matches w' r a b) {c : Cursor} (hc : c.Under r n) (m m' : Store α)
    (h : Paired r n a b m m') : ((c.close w).run m).1.Under r n :=
  ((hw.countsExact.closeLayers hc) m h.covers).2.under

theorem closeLayers (hw : w.Matches w' r a b) {c : Cursor} (hc : c.Under r n) :
    (c.close w).Along (Paired r n a b) (c.close w') := by
  induction c generalizing n with
  | plain feed provider head => exact .pure _
  | managed janitor released inner ih =>
    have hinner := hc.2.mono hc.1.slot.le
    unfold Cursor.close
    split
    · exact .pure _
    · refine .bindThat (ih hinner) (hw.under_close hinner) fun d hd => ?_
      refine .bind (hw.releaseCursor hc.1 (hw.releaseLayers hd)) fun _ => ?_
      exact .pure _
  | watched slot act inner ih => exact .bind (ih hc.2) fun _ => .pure _

theorem under_releaseCursor (hw : w.Matches w' r a b) (hj : j.Under r n) {c : Cursor}
    (hc : c.Under r j.slot) (m m' : Store α) (h : Paired r n a b m m') :
    (((j.releaseCursor w (c.release w)).run m).1.2).Under r n :=
  (((hw.countsExact.releaseCursor hj (hw.countsExact.releaseLayers hc)) m h.covers).2.under).mono hj.slot.le

theorem dropLayers (hw : w.Matches w' r a b) (layers : Nat) {c : Cursor} (hc : c.Under r n) :
    (c.dropLayers w layers).Along (Paired r n a b) (c.dropLayers w' layers) := by
  induction layers generalizing c with
  | zero => exact .pure _
  | succ layers ih =>
    cases c with
    | plain feed provider head => exact .pure _
    | managed janitor released inner =>
      have hinner := hc.2.mono hc.1.slot.le
      unfold Cursor.dropLayers
      split
      · exact ih hinner
      · exact .bindThat (P := fun x => x.2.Under r n)
          (hw.releaseCursor hc.1 (hw.releaseLayers hinner)) (hw.under_releaseCursor hc.1 hc.2)
          fun x hx => ih hx
    | watched slot act inner => exact ih hc.2

theorem dropCursor (hw : w.Matches w' r a b) {c : Cursor} (hc : c.Under r n) :
    (c.drop w).Along (Paired r n a b) (c.drop w') := hw.dropLayers c.depth hc

theorem closeSourceLayers (hw : w.Matches w' r a b) {source : Source α}
    (hsource : ∀ c, source.cursor? = some c → c.Under r n) :
    (source.closeUncounted w).Along (Paired r n a b) (source.closeUncounted w') := by
  cases source with
  | chain c => exact .bind (hw.closeLayers (hsource c rfl)) fun _ => .pure _
  | iterator ahead => exact .pure _
  | script outcomes pulled hint closing => exact .pure _
  | bytes source item => exact .pure _

theorem closeSource (hw : w.Matches w' r a b) (h : Paired r n a b m m')
    (hshut : m.feeds.isOpen feed = false) (hunder : ∀ c, m.feeds.chained feed = some c → c.Under r n) :
    Beside (Paired r n a b) ((Store.closeSource w feed).run m) ((Store.closeSource w' feed).run m') := by
  have hsame := h.cells.source? feed
  cases hsource : m.feeds.source? feed with
  | none =>
    simp only [Store.closeSource, Call.run_bind, Call.run_get, ← hsame, hsource]
    exact ⟨rfl, h⟩
  | some source =>
    have hcounted := h.count feed fun t => { t with closes := t.closes + 1 }
    have hlayers := under_of_chained hsource hunder
    have hclosed := (hw.countsExact.closeSourceLayers hlayers _ hcounted.covers).1.feeds
    obtain ⟨x, m₁, m₁', hx, hx', h₁⟩ := (hw.closeSourceLayers hlayers _ _ hcounted).split
    rw [hx] at hclosed
    have hshut₁ : m₁.feeds.isOpen feed = false := by
      rw [← Bool.not_eq_true] at hshut ⊢
      exact fun hopen => hshut (((Feeds.Alike.count _).isOpen feed).symm.trans (hclosed.isOpen feed hopen))
    simp only [Store.closeSource, Source.close_eq, Call.run_bind, Call.run_get, ← hsame, hsource,
      Call.run_modify, hx, hx']
    exact ⟨rfl, h₁.setSource hshut₁ (some x.2)⟩

theorem dropSource (hw : w.Matches w' r a b) (h : Paired r n a b m m')
    (hshut : m.feeds.isOpen feed = false) (hunder : ∀ c, m.feeds.chained feed = some c → c.Under r n) :
    Beside (Paired r n a b) ((Store.dropSource w feed).run m) ((Store.dropSource w' feed).run m') := by
  have hsame := h.cells.source? feed
  cases hsource : m.feeds.source? feed with
  | none =>
    simp only [Store.dropSource, Call.run_bind, Call.run_get, ← hsame, hsource]
    exact ⟨rfl, h⟩
  | some source =>
    have hdrop : (source.drop w).Along (Paired r n a b) (source.drop w') := by
      cases source with
      | chain c => exact hw.dropCursor (under_of_chained hsource hunder c rfl)
      | iterator ahead => exact .pure _
      | script outcomes pulled hint closing => exact .pure _
      | bytes source item => exact .pure _
    simp only [Store.dropSource, Call.run_bind, Call.run_get, ← hsame, hsource, Call.run_modify]
    exact hdrop _ _ (h.setSource hshut none)

theorem partSource (hw : w.Matches w' r a b) (h : Paired r n a b m m')
    (hshut : m.feeds.isOpen feed = false) (hunder : ∀ c, m.feeds.chained feed = some c → c.Under r n)
    (ownership : Ownership) :
    Beside (Paired r n a b)
      ((do
        let outcome ← match ownership with
          | .owned => Store.closeSource w feed
          | .borrowed => pure (.ok ())
        Store.dropSource w feed
        return outcome : Call α (Outcome SourceError Unit)).run m)
      ((do
        let outcome ← match ownership with
          | .owned => Store.closeSource w' feed
          | .borrowed => pure (.ok ())
        Store.dropSource w' feed
        return outcome : Call α (Outcome SourceError Unit)).run m') := by
  cases ownership with
  | borrowed =>
    obtain ⟨u, m₁, m₁', hx, hx', h₁⟩ := (hw.dropSource h hshut hunder).split
    simp only [Call.run_bind, Call.run_pure, hx, hx']
    exact ⟨rfl, h₁⟩
  | owned =>
    obtain ⟨htransfer, hunder₁⟩ := hw.countsExact.closeSource h.covers hshut hunder 0
    obtain ⟨outcome, m₁, m₁', hx, hx', h₁⟩ := (hw.closeSource h hshut hunder).split
    rw [hx] at htransfer hunder₁
    have hshut₁ : m₁.feeds.isOpen feed = false := by
      rw [← Bool.not_eq_true] at hshut ⊢
      exact mt (htransfer.feeds.isOpen feed) hshut
    obtain ⟨u, m₂, m₂', hdrop, hdrop', h₂⟩ := (hw.dropSource h₁ hshut₁ hunder₁).split
    simp only [Call.run_bind, Call.run_pure, hx, hx', hdrop, hdrop']
    exact ⟨rfl, h₂⟩

theorem closeOpenBuffer (hw : w.Matches w' r a b) (hr : r.Sorted)
    (hbelow : ∀ c : Cursor, r.chains[feed]? = some (some c) → c.Below n) :
    (Store.closeBuffer w feed).Along (Paired r n (a + 1) (b + 1)) (Store.closeBuffer w' feed) := by
  intro m m' h
  simp only [Store.closeBuffer, Call.run_bind, Call.run_get, ← h.cells.buffer? feed]
  cases hb : m.feeds.buffer? feed with
  | none => exact ⟨rfl, h⟩
  | some x =>
    cases hclosed : x.closed with
    | true =>
      simp only [hclosed, if_true]
      exact ⟨rfl, h⟩
    | false =>
      have hopen : m.feeds.isOpen feed := by simp [Feeds.isOpen, hb, hclosed]
      have hunder : ∀ c, m.feeds.chained feed = some c → c.Under r n := by
        intro c hc
        have hlent : m.feeds.lent feed = some c := (if_pos hopen).trans hc
        obtain ⟨k, hk⟩ := hr feed c (h.covers.lent feed c hlent)
        exact hk.lower (hbelow c (h.covers.lent feed c hlent))
      have hshut : (m.feeds.setBuffer feed (some x.close)).isOpen feed = false := by
        rw [Feeds.isOpen, Feeds.buffer?_setBuffer (Feeds.lt_of_isOpen hopen)]
        rfl
      have hnoted := (h.shutting (x := x) hopen).notes (notes_note (.bufferClosed x.consumed x.ownership) _)
        (notes_note (.bufferClosed x.consumed x.ownership) _)
      simp only [hclosed, Bool.false_eq_true, if_false, Call.run_bind, Call.run_modify]
      have hparted := hw.partSource hnoted hshut
        (fun c hc => hunder c ((Feeds.chained_setBuffer ..).symm.trans hc)) x.ownership
      exact ⟨hparted.1, hparted.2.more⟩

theorem closeDelegate (hw : w.Matches w' r a b) (hj : j.Under r n) :
    (j.closeDelegate w).Along (Paired r n a b) (j.closeDelegate w') := by
  let count := fun t : JanitorState => { t with closings := t.closings + 1 }
  have hcount : (onJanitor (α := α) j.slot count).Along (Paired r n a b) (onJanitor j.slot count) :=
    along_onJanitor (fun _ _ h => congrArg count h) (fun _ => id) fun _ => id
  rw [Janitor.closeDelegate_eq, Janitor.closeDelegate_eq]
  refine .bind hcount fun _ => ?_
  refine .bind (hw.closeProvider (hj.delegate.mono hj.slot.le)) fun _ => ?_
  refine .bind (along_record _ _ _ _) fun _ => ?_
  refine .bind (along_onStatistics _ _) fun _ => ?_
  refine .bind (along_note _) fun _ => ?_
  exact .pure _

theorem releaseDelegate (hw : w.Matches w' r a b) (hj : j.Under r n) (report : Report) :
    (j.releaseDelegate w report).Along (Paired r n a b) (j.releaseDelegate w' report) := by
  let count := fun t : JanitorState => { t with releasings := t.releasings + 1 }
  have hcount : (onJanitor (α := α) j.slot count).Along (Paired r n a b) (onJanitor j.slot count) :=
    along_onJanitor (fun _ _ h => congrArg count h) (fun _ => id) fun _ => id
  rw [Janitor.releaseDelegate_eq, Janitor.releaseDelegate_eq]
  refine .bind hcount fun _ => ?_
  refine .bind (hw.releaseProvider (hj.delegate.mono hj.slot.le)) fun _ => ?_
  refine .bind (along_record _ _ _ _) fun report => ?_
  refine .get fun m m' h => ?_
  rw [h.openCursors hj.slot]
  refine .bind (along_onStatistics _ _) fun _ => ?_
  refine .bind (along_note _) fun _ => ?_
  exact .pure _

theorem closeJanitor (hw : w.Matches w' r a b) (hj : j.Under r n) :
    (j.close w).Along (Paired r n (a + 1) (b + 1)) (j.close w') := by
  intro m m' h
  have hsame := h.closed hj.slot
  cases hopen : (m.janitor j.slot).closed with
  | true =>
    rw [Janitor.run_close_of_closed hopen, Janitor.run_close_of_closed (hsame.symm.trans hopen)]
    exact ⟨rfl, h⟩
  | false =>
    have hrest : Call.Along (Paired r n a b) (do
        let report ← j.closeDelegate w
        if ((← get).janitor j.slot).openCursors = 0 then return report.merge (← w.release j)
        else return report) (do
        let report ← j.closeDelegate w'
        if ((← get).janitor j.slot).openCursors = 0 then return report.merge (← w'.release j)
        else return report) := by
      refine .bind (hw.closeDelegate hj) fun report => ?_
      refine .get fun m m' h => ?_
      rw [h.openCursors hj.slot]
      split
      · exact .bind (hw.release hj) fun _ => .pure _
      · exact .pure _
    have hdone := hrest _ _ (h.closing hj.slot hopen)
    rw [Janitor.run_close_of_open hopen, Janitor.run_close_of_open (hsame.symm.trans hopen)]
    exact ⟨hdone.1, hdone.2.more⟩

theorem releaseJanitor (hw : w.Matches w' r a b) (hj : j.Under r n) :
    (j.release w).Along (Paired r n (a + 1) (b + 1)) (j.release w') := by
  intro m m' h
  have hsame := h.released hj.slot
  cases hopen : (m.janitor j.slot).released with
  | true =>
    rw [Janitor.run_release_of_released hopen, Janitor.run_release_of_released (hsame.symm.trans hopen)]
    exact ⟨rfl, h⟩
  | false =>
    have hrest : Call.Along (Paired r n a b) (w.close j >>= fun report =>
        j.releaseDelegate w (Report.begun.merge report)) (w'.close j >>= fun report =>
        j.releaseDelegate w' (Report.begun.merge report)) :=
      .bind (hw.close hj) fun report => hw.releaseDelegate hj _
    have hdone := hrest _ _ (h.releasing hj.slot hopen)
    rw [Janitor.run_release_of_unreleased hopen, Janitor.run_release_of_unreleased (hsame.symm.trans hopen)]
    exact ⟨hdone.1, hdone.2.more⟩

theorem countCursor (hw : w.Matches w' r a b) (hj : j.Under r n) {c : Cursor} (hc : c.Under r j.slot)
    (e : StreamError) :
    (j.countCursor w .plain c e).Along (Paired r n a b) (j.countCursor w' .plain c e) := by
  have hcounted : ∀ t t' : JanitorState, t.unasked = t'.unasked →
      { t with openCursors := t.openCursors + 1 }.unasked =
        { t' with openCursors := t'.openCursors + 1 }.unasked := by
    intro t t' h
    exact congrArg (fun t : JanitorState => { t with openCursors := t.openCursors + 1 }) h
  refine .bind (along_onJanitor hcounted (fun _ => id) fun _ => id) fun _ => ?_
  refine .bind (along_onStatistics _ _) fun _ => ?_
  refine .get fun m m' h => ?_
  rw [h.released hj.slot]
  split
  · refine .bind (along_onStatistics _ _) fun _ => ?_
    have hreleased := hw.releaseCursor hj (hw.releaseLayers (hc.mono hj.slot.le))
    refine .bindThat (P := fun x => x.2.Under r n) hreleased (hw.under_releaseCursor hj hc) fun x hx => ?_
    refine .bind (hw.dropCursor hx) fun _ => ?_
    exact .pure _
  · exact .pure _

theorem openCursor (hw : w.Matches w' r a b) {p : Provider} (hp : p.Under r n) (hinert : p.Inert) :
    (p.openCursor w).Along (Paired r n a b) (p.openCursor w') := by
  have hunder : ∀ {p : Provider} {k n}, p.Under r k → p.Inert → ∀ m m' : Store α, Paired r n a b m m' →
      ∀ d, ((p.openCursor w).run m).1 = .ok d → d.Under r k :=
    fun hp hinert m m' h => (hw.countsExact.openCursor hp le_rfl (.inl hinert) m h.covers).2
  induction p generalizing n with
  | base slot id feed =>
    refine .get fun m m' h => ?_
    rw [h.baseClosed slot]
    split
    · exact .pure _
    · exact .pure _
  | managed slot statistics hook inner ih =>
    obtain ⟨-, hj⟩ := Provider.under_managed.mp hp
    obtain ⟨rfl, hinert⟩ := hinert
    have hinner := hj.delegate.mono hj.slot.le
    refine .get fun m m' h => ?_
    rw [h.closed hj.slot]
    split
    · exact .pure _
    · refine .bindThat (P := fun x => ∀ d, x = .ok d → d.Under r slot) (ih hinner hinert)
        (hunder hj.delegate hinert) fun x hx => ?_
      cases x with
      | error stop => exact .pure _
      | ok c => exact hw.countCursor hj (hx c rfl) _
  | scripted slot script inner ih =>
    refine .get fun m m' h => ?_
    rw [h.script slot]
    refine .bind (along_onScript slot fun _ => rfl) fun _ => ?_
    refine .bind ((hinert.1.onOpen _).along w w' slot) fun x => ?_
    cases x with
    | error stop => exact .pure _
    | ok =>
      refine .bindThat (P := fun x => ∀ d, x = .ok d → d.Under r n) (ih hp.2 hinert.2)
        (hunder hp.2 hinert.2) fun x hx => ?_
      cases x with
      | error stop => exact .pure _
      | ok c =>
        refine .bind ((hinert.1.afterOpen _).along w w' slot) fun x => ?_
        cases x with
        | error stop => exact .bind (hw.dropCursor (hx c rfl)) fun _ => .pure _
        | ok =>
          dsimp only
          split
          · exact .pure _
          · exact .pure _

end Switches.Matches

theorem Store.Shares.idle (h : Shares r n m m') (hidle : m.pending = 0 ∨ m'.pending = 0) :
    (∀ slot < n, (m.janitor slot).closed ∧ (m.janitor slot).released) ∧
      ∀ feed, m.feeds.isOpen feed = false := by
  rcases hidle with hidle | hidle
  · exact ⟨fun slot _ => ended_of_pending hidle.le slot, shut_of_pending hidle⟩
  · refine ⟨fun slot hslot => ?_, fun feed => ?_⟩
    · rw [h.closed hslot, h.released hslot]
      exact ended_of_pending hidle.le slot
    · rw [h.cells.isOpen]
      exact shut_of_pending hidle feed

theorem matches_idle (hr : r.Sorted) (hidle : a = 0 ∨ b = 0) :
    (switches a : Switches α).Matches (switches b) r a b := by
  have hnone : ∀ {n} {m m' : Store α}, Paired r n a b m m' → m.pending = 0 ∨ m'.pending = 0 := by
    intro n m m' h
    have hleft := h.left
    have hright := h.right
    omega
  refine ⟨countsExact_switches hr a, fun {j n} hj m m' h => ?_, fun {j n} hj m m' h => ?_,
    fun {feed n} _ m m' h => ?_⟩
  · obtain ⟨hended, -⟩ := h.idle (hnone h)
    obtain ⟨hclosed, -⟩ := hended j.slot hj.slot
    rw [run_close_switches a hclosed, run_close_switches b ((h.closed hj.slot).symm.trans hclosed)]
    exact ⟨rfl, h⟩
  · obtain ⟨hended, -⟩ := h.idle (hnone h)
    obtain ⟨-, hreleased⟩ := hended j.slot hj.slot
    rw [run_release_switches a hreleased,
      run_release_switches b ((h.released hj.slot).symm.trans hreleased)]
    exact ⟨rfl, h⟩
  · have hshut := (h.idle (hnone h)).2 feed
    rw [run_closeBuffer_switches a hshut, run_closeBuffer_switches b ((h.cells.isOpen feed).symm.trans hshut)]
    exact ⟨rfl, h⟩

/-- The number of switches is irrelevant if both stores have enough of them. -/
theorem matches_switches (hr : r.Sorted) (a b : Nat) :
    (switches a : Switches α).Matches (switches b) r a b := by
  induction a generalizing b with
  | zero => exact matches_idle hr (.inl rfl)
  | succ a ih =>
    cases b with
    | zero => exact matches_idle hr (.inr rfl)
    | succ b =>
      exact ⟨countsExact_switches hr _, (ih b).closeJanitor, (ih b).releaseJanitor, (ih b).closeOpenBuffer hr⟩

end Replay
