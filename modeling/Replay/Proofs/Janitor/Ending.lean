import Replay.Proofs.Janitor.Advancing

/-!
Closing, releasing and dropping terminate and change a store by `Advances`. Each call is treated under
the assumption that its switches suffice for what is pending; the switches themselves by induction on
how many are left.
-/
namespace Replay

open Store

variable {α β γ : Type}

namespace Store

/-- Advances every store with at most `n` pending. -/
def Call.Ends (n : Nat) (f : Call α β) : Prop :=
  ∀ m : Store α, m.pending ≤ n → m.Advances (f.run m).2

namespace Call.Ends

variable {n : Nat}

theorem pure (r : β) : Call.Ends n (Pure.pure r : Call α β) := fun m _ => .refl m

theorem get : Call.Ends n (MonadState.get : Call α (Store α)) := fun m _ => .refl m

theorem bind {f : Call α β} {g : β → Call α γ} (hf : f.Ends n) (hg : ∀ r, (g r).Ends n) :
    (f >>= g).Ends n := by
  intro m hm
  have h := hf m hm
  exact h.trans (hg _ _ (h.pending_le.trans hm))

theorem map {f : Call α β} (g : β → γ) (hf : f.Ends n) : (g <$> f).Ends n := hf

theorem modifying {f : Store α → Store α} (hj : ∀ m : Store α, (f m).janitors = m.janitors)
    (hf : ∀ m : Store α, m.feeds.NoneOpened (f m).feeds) : (modify f : Call α Unit).Ends n :=
  fun m _ => .of_janitors (hj m) (hf m)

end Call.Ends

/-- Besides, a cursor of the janitor at `slot` is counted out. -/
def Call.CountsOut (n slot : Nat) (f : Call α β) : Prop :=
  ∀ m : Store α, m.pending ≤ n → m.Advances (f.run m).2 ∧
    ((f.run m).2.janitor slot).openCursors ≤ (m.janitor slot).openCursors - 1

namespace Call.CountsOut

variable {n slot : Nat}

theorem ends {f : Call α β} (hf : f.CountsOut n slot) : f.Ends n := fun m hm => (hf m hm).1

theorem after {f : Call α β} {g : β → Call α γ} (hf : f.Ends n)
    (hg : ∀ r, (g r).CountsOut n slot) : (f >>= g).CountsOut n slot := by
  intro m hm
  have h := hf m hm
  obtain ⟨h', hle⟩ := hg _ _ (h.pending_le.trans hm)
  exact ⟨h.trans h', hle.trans (Nat.sub_le_sub_right (h.janitor slot).openCursors 1)⟩

theorem before {f : Call α β} {g : β → Call α γ} (hf : f.CountsOut n slot)
    (hg : ∀ r, (g r).Ends n) : (f >>= g).CountsOut n slot := by
  intro m hm
  obtain ⟨h, hle⟩ := hf m hm
  have h' := hg (f.run m).1 _ (h.pending_le.trans hm)
  exact ⟨h.trans h', (h'.janitor slot).openCursors.trans hle⟩

end Call.CountsOut

variable {n : Nat}

theorem ends_note (e : Event) : (note (α := α) e).Ends n :=
  .modifying (fun _ => rfl) fun _ => ⟨rfl, fun _ => id⟩

theorem ends_onScript (slot : Nat) (f : ScriptState → ScriptState) :
    (onScript (α := α) slot f).Ends n :=
  .modifying (fun _ => rfl) fun _ => .refl _

theorem ends_onStatistics (slot : Nat) (f : Statistics → Statistics) :
    (onStatistics (α := α) slot f).Ends n :=
  .modifying (fun _ => rfl) fun _ => .refl _

theorem ends_closeBase (slot : Nat) : (closeBase (α := α) slot).Ends n :=
  .modifying (fun _ => rfl) fun _ => .refl _

theorem ends_newProviderId : (newProviderId (α := α)).Ends n :=
  fun _ _ => .of_janitors rfl (.refl _)

end Store

/-- The switches do their work where at most `n` are pending. -/
structure Switches.Suffice (w : Switches α) (n : Nat) : Prop where
  close : ∀ j, (w.close j).Ends n
  closed : ∀ j m, m.pending ≤ n → (((w.close j).run m).2.janitor j.slot).closed
  release : ∀ j m, m.pending ≤ n → (m.janitor j.slot).Due ∨ (m.janitor j.slot).released →
    m.Advances ((w.release j).run m).2 ∧ (((w.release j).run m).2.janitor j.slot).released
  closeBuffer : ∀ feed, (w.closeBuffer feed).Ends n

variable {w : Switches α} {n : Nat}

theorem released_demanded (m : Store α) (slot : Nat) :
    ((m.change slot fun t => { t with demands := t.demands + 1 }).janitor slot).released =
      (m.janitor slot).released :=
  janitor_change_congr fun _ => rfl

theorem Switches.Suffice.demanded (hw : w.Suffice n) (j : Janitor) {m : Store α} (hm : m.pending ≤ n) :
    m.Advances ((w.demand j).run m).2 ∧ (((w.demand j).run m).2.janitor j.slot).released := by
  have hflags : m.FlagsMono (m.change j.slot fun t => { t with demands := t.demands + 1 }) :=
    .of_change (fun _ => id) fun _ => id
  have hdue : ((m.change j.slot fun t => { t with demands := t.demands + 1 }).janitor j.slot).Due ∨
      ((m.change j.slot fun t => { t with demands := t.demands + 1 }).janitor j.slot).released := by
    cases hopen : (m.janitor j.slot).released with
    | true => exact .inr ((released_demanded m j.slot).trans hopen)
    | false =>
      rw [janitor_change_self (lt_of_released_eq_false hopen)]
      exact .inl (.inl (Nat.succ_pos _))
  obtain ⟨hadvances, hreleased⟩ := hw.release j _ (hflags.pending_le.trans hm) hdue
  exact ⟨hadvances.of_change fun _ h => .of_demand h hreleased, hreleased⟩

theorem Switches.Suffice.demand (hw : w.Suffice n) (j : Janitor) : (w.demand j).Ends n :=
  fun _ hm => (hw.demanded j hm).1

theorem ends_make (cue : ErrorCue) : (cue.make (α := α)).Ends n := by
  cases cue with
  | fixed e => exact .pure _
  | providerClosed => exact .bind ends_newProviderId fun _ => .pure _

theorem Switches.Suffice.endOuter (hw : w.Suffice n) (slot : Nat) (ending : Ending) :
    (w.endOuter slot ending).Ends n := by
  refine .bind .get fun m => ?_
  split
  · exact .pure _
  · refine .bind .get fun m => ?_
    split
    · exact .pure _
    · cases ending with
      | close => exact .map _ (hw.close _)
      | release => exact .map _ (hw.demand _)

theorem Switches.Suffice.perform (hw : w.Suffice n) (slot : Nat) (act : Act) :
    (act.perform w slot).Ends n := by
  cases act with
  | pass => exact .pure _
  | outer ending => exact .bind (hw.endOuter slot ending) fun _ => .pure _
  | panic p => exact .pure _
  | fail cue => exact .bind (ends_make cue) fun _ => .pure _

theorem ends_record (r : Report) (provider : ProviderId) (stage : Stage)
    (outcome : Outcome StreamError Unit) : (r.record (α := α) provider stage outcome).Ends n := by
  unfold Report.record
  split
  · exact .pure _
  · exact .bind (ends_note _) fun _ => .pure _

theorem Switches.Suffice.closeProvider (hw : w.Suffice n) (p : Provider) : (p.close w none).Ends n := by
  induction p with
  | base slot id feed =>
    refine .bind (.pure _) fun _ => ?_
    refine .bind .get fun m => ?_
    split
    · exact .pure _
    · refine .bind (ends_closeBase slot) fun _ => ?_
      refine .bind (ends_note _) fun _ => ?_
      exact .pure _
  | managed slot statistics hook inner =>
    refine .bind (.pure _) fun _ => ?_
    refine .bind (.map _ (hw.close _)) fun _ => ?_
    exact .pure _
  | scripted slot script inner ih =>
    refine .bind (.pure _) fun _ => ?_
    refine .bind .get fun m => ?_
    refine .bind (ends_onScript slot _) fun _ => ?_
    refine .bind (hw.perform slot _) fun r => ?_
    split
    · exact .pure _
    · refine .bind ih fun r => ?_
      split
      · exact .pure _
      · exact hw.perform slot _

theorem Switches.Suffice.releaseProvider (hw : w.Suffice n) (p : Provider) :
    (p.release w none).Ends n := by
  induction p with
  | base slot id feed =>
    refine .bind (.pure _) fun _ => ?_
    refine .bind (ends_closeBase slot) fun _ => ?_
    refine .bind (hw.closeBuffer feed) fun _ => ?_
    exact .pure _
  | managed slot statistics hook inner =>
    refine .bind (.pure _) fun _ => ?_
    refine .bind (.map _ (hw.demand _)) fun _ => ?_
    exact .pure _
  | scripted slot script inner ih =>
    refine .bind (.pure _) fun _ => ?_
    refine .bind .get fun m => ?_
    refine .bind (ends_onScript slot _) fun _ => ?_
    refine .bind (hw.perform slot _) fun r => ?_
    split
    · exact .pure _
    · refine .bind ih fun r => ?_
      split
      · exact .pure _
      · exact hw.perform slot _

theorem Janitor.run_countOut (j : Janitor) (report : Report) (m : Store α) :
    (j.countOut w report).run m =
      (if (m.janitor j.slot).openCursors ≤ 1 &&
          ((m.change j.slot JanitorState.countDown).janitor j.slot).closed
        then report.merge <$> w.release j else pure report : Call α Report).run
        (m.change j.slot JanitorState.countDown) := rfl

theorem Switches.Suffice.countOut (hw : w.Suffice n) (j : Janitor) (report : Report) :
    (j.countOut w report).CountsOut n j.slot := by
  intro m hm
  have hflags : m.FlagsMono (m.change j.slot JanitorState.countDown) :=
    .of_change (fun _ => id) fun _ => id
  have hcount : ((m.change j.slot JanitorState.countDown).janitor j.slot).openCursors =
      (m.janitor j.slot).openCursors - 1 := by
    rw [janitor_change_of_void rfl, JanitorState.countDown]
  have hclosed : ((m.change j.slot JanitorState.countDown).janitor j.slot).closed =
      (m.janitor j.slot).closed := janitor_change_congr fun _ => rfl
  rw [Janitor.run_countOut, hclosed]
  by_cases hlast : (m.janitor j.slot).openCursors ≤ 1 && (m.janitor j.slot).closed
  · rw [if_pos hlast]
    rw [Bool.and_eq_true, decide_eq_true_eq] at hlast
    have hdue : (m.janitor j.slot).openCursors - 1 = 0 := Nat.sub_eq_zero_of_le hlast.1
    obtain ⟨h, hr⟩ := hw.release j _ (hflags.pending_le.trans hm) (.inl (.inr (hcount.trans hdue)))
    refine ⟨h.of_change fun _ h => .of_countDown h fun _ _ => hr, ?_⟩
    exact (h.janitor j.slot).openCursors.trans_eq hcount
  · rw [if_neg hlast]
    refine ⟨(Advances.refl _).of_change fun _ h => .of_countDown h fun hle hc => ?_, hcount.le⟩
    simp [hle, hc] at hlast

theorem Switches.Suffice.releaseCursor (hw : w.Suffice n) (j : Janitor)
    {step : Call α (Outcome StreamError Unit × Cursor)} (hstep : step.Ends n) :
    (j.releaseCursor w step).CountsOut n j.slot := by
  have hrest : Call.CountsOut n j.slot (do
      let x ← step
      let report ← Report.begun.record j.id .releaseCursor x.1
      return (← j.countOut w report, x.2)) := by
    refine .after hstep fun _ => ?_
    refine .after (ends_record _ _ _ _) fun _ => ?_
    refine .before (hw.countOut j _) fun _ => ?_
    exact .pure _
  refine .after .get fun m => ?_
  split
  · exact .after (ends_onStatistics _ _) fun _ => hrest
  · exact hrest

theorem Switches.Suffice.releaseLayers (hw : w.Suffice n) (c : Cursor) : (c.release w).Ends n := by
  induction c with
  | plain feed provider head => exact .pure _
  | managed janitor released inner ih =>
    unfold Cursor.release
    split
    · exact .pure _
    · exact .bind (hw.releaseCursor janitor ih).ends fun _ => .pure _
  | watched slot act inner ih =>
    refine .bind (hw.perform slot act) fun r => ?_
    split
    · exact .pure _
    · exact .bind ih fun _ => .pure _

theorem Switches.Suffice.closeLayers (hw : w.Suffice n) (c : Cursor) : (c.close w).Ends n := by
  induction c with
  | plain feed provider head => exact .pure _
  | managed janitor released inner ih =>
    unfold Cursor.close
    split
    · exact .pure _
    · refine .bind ih fun inner => ?_
      refine .bind (hw.releaseCursor janitor (hw.releaseLayers inner)).ends fun _ => ?_
      exact .pure _
  | watched slot act inner ih => exact .bind ih fun _ => .pure _

theorem Switches.Suffice.dropLayers (hw : w.Suffice n) (layers : Nat) (c : Cursor) :
    (c.dropLayers w layers).Ends n := by
  induction layers generalizing c with
  | zero => exact .pure _
  | succ layers ih =>
    cases c with
    | plain feed provider head => exact .pure _
    | managed janitor released inner =>
      unfold Cursor.dropLayers
      split
      · exact ih inner
      · exact .bind (hw.releaseCursor janitor (hw.releaseLayers inner)).ends fun r => ih r.2
    | watched slot act inner => exact ih inner

theorem Switches.Suffice.dropCursor (hw : w.Suffice n) (c : Cursor) : (c.drop w).Ends n :=
  hw.dropLayers c.depth c

theorem Switches.Suffice.closeSource (hw : w.Suffice n) (feed : Nat) :
    (Store.closeSource w feed).Ends n := by
  refine .bind .get fun m => ?_
  split
  · exact .pure _
  · rename_i source _
    have hclose : (source.close w feed).Ends n := by
      rw [Source.close_eq]
      refine .bind (.modifying (fun _ => rfl) fun _ => .modify fun _ => rfl) fun _ => ?_
      cases source with
      | chain c =>
        refine .bind (hw.closeLayers c) fun _ => ?_
        exact .pure _
      | _ => exact .pure _
    refine .bind hclose fun r => ?_
    refine .bind (.modifying (fun _ => rfl) fun _ => .modify fun _ => rfl) fun _ => ?_
    exact .pure _

theorem Switches.Suffice.dropSource (hw : w.Suffice n) (feed : Nat) :
    (Store.dropSource w feed).Ends n := by
  refine .bind .get fun m => ?_
  split
  · exact .pure _
  · rename_i source _
    refine .bind (.modifying (fun _ => rfl) fun _ => .modify fun _ => rfl) fun _ => ?_
    cases source with
    | chain c => exact hw.dropCursor c
    | _ => exact .pure _

theorem Switches.Suffice.closeOpenBuffer (hw : w.Suffice n) (feed : Nat) :
    (Store.closeBuffer w feed).Ends (n + 1) := by
  intro m hm
  rw [Store.closeBuffer, Call.run_bind, Call.run_get]
  dsimp only
  cases hb : m.feeds.buffer? feed with
  | none => exact .refl m
  | some b =>
    dsimp only
    split
    · exact .refl m
    · rename_i hopen
      have hnoneOpened : m.feeds.NoneOpened (m.feeds.setBuffer feed (some b.close)) := .setBuffer rfl
      have hadvances : m.Advances { m with feeds := m.feeds.setBuffer feed (some b.close) } :=
        .of_janitors rfl hnoneOpened
      have hisOpen : m.feeds.isOpen feed := by simp [Feeds.isOpen, hb, hopen]
      have hshut : (m.feeds.setBuffer feed (some b.close)).isOpen feed = false := by
        rw [Feeds.isOpen, Feeds.buffer?_setBuffer (Feeds.lt_of_isOpen hisOpen)]
        rfl
      have hended := hadvances.flagsMono.pending_lt (.shut feed hisOpen hshut)
      rw [Call.run_bind, Call.run_modify]
      suffices hrest : Call.Ends n _ from hadvances.trans (hrest _ (Nat.le_of_lt_succ (hended.trans_le hm)))
      refine .bind (ends_note _) fun _ => ?_
      split
      · refine .bind (hw.closeSource feed) fun _ => ?_
        refine .bind (hw.dropSource feed) fun _ => ?_
        exact .pure _
      · refine .bind (.pure _) fun _ => ?_
        refine .bind (hw.dropSource feed) fun _ => ?_
        exact .pure _

theorem Switches.Suffice.closeDelegate (hw : w.Suffice n) (j : Janitor) {m : Store α}
    (hm : (m.change j.slot fun t => { t with closings := t.closings + 1 }).pending ≤ n) :
    (m.change j.slot fun t => { t with closings := t.closings + 1 }).Advances
      ((j.closeDelegate w).run m).2 := by
  rw [Janitor.closeDelegate_eq]
  have hrest : Call.Ends n (do
      let report ← Report.begun.record j.id .closeProvider (← j.delegate.close w none)
      onStatistics j.statistics (·.closeProvider)
      note (.managedProviderClosed j.id)
      return report) := by
    refine .bind (hw.closeProvider _) fun _ => ?_
    refine .bind (ends_record _ _ _ _) fun _ => ?_
    refine .bind (ends_onStatistics _ _) fun _ => ?_
    refine .bind (ends_note _) fun _ => ?_
    exact .pure _
  exact hrest _ hm

theorem Switches.Suffice.releaseDelegate (hw : w.Suffice n) (j : Janitor) (report : Report)
    {m : Store α}
    (hm : (m.change j.slot fun t => { t with releasings := t.releasings + 1 }).pending ≤ n) :
    (m.change j.slot fun t => { t with releasings := t.releasings + 1 }).Advances
      ((j.releaseDelegate w report).run m).2 := by
  rw [Janitor.releaseDelegate_eq]
  have hrest : Call.Ends n (do
      let report ← report.record j.id .releaseProvider (← j.delegate.release w none)
      let outstanding := ((← get).janitor j.slot).openCursors
      onStatistics j.statistics (·.closeCursors outstanding)
      note (.resourcesReleased j.id outstanding report.faults.length)
      return report) := by
    refine .bind (hw.releaseProvider _) fun _ => ?_
    refine .bind (ends_record _ _ _ _) fun _ => ?_
    refine .bind .get fun _ => ?_
    refine .bind (ends_onStatistics _ _) fun _ => ?_
    refine .bind (ends_note _) fun _ => ?_
    exact .pure _
  exact hrest _ hm

namespace Janitor

variable {m : Store α} {j : Janitor}

theorem run_close_of_closed (h : (m.janitor j.slot).closed) :
    (j.close w).run m = (.skipped, m) := by
  simp [close, h]
  rfl

theorem run_release_of_released (h : (m.janitor j.slot).released) :
    (j.release w).run m = (.skipped, m) := by
  simp [release, h]
  rfl

theorem run_close_of_open (h : (m.janitor j.slot).closed = false) :
    (j.close w).run m = (do
      let report ← j.closeDelegate w
      if ((← get).janitor j.slot).openCursors = 0 then return report.merge (← w.release j)
      else return report : Call α Report).run (m.change j.slot fun t => { t with closed := true }) := by
  rw [close, Call.run_bind, Call.run_get]
  dsimp only
  rw [h]
  rfl

theorem run_release_of_unreleased (h : (m.janitor j.slot).released = false) :
    (j.release w).run m = (w.close j >>= fun report =>
      j.releaseDelegate w (Report.begun.merge report) : Call α Report).run
        (m.change j.slot fun t => { t with released := true }) := by
  rw [release, Call.run_bind, Call.run_get]
  dsimp only
  rw [h]
  rfl

theorem performed_record (r : Report) (provider : ProviderId) (stage : Stage)
    (outcome : Outcome StreamError Unit) :
    ((r.record provider stage outcome).run m).1.performed = r.performed := by
  unfold Report.record
  cases outcome.complaint with
  | none => rfl
  | some detail => rfl

theorem performed_close (h : (m.janitor j.slot).closed = false) :
    ((j.close w).run m).1.performed := by
  have hdelegate : ((j.closeDelegate w).run
      (m.change j.slot fun t => { t with closed := true })).1.performed := performed_record ..
  rcases hrun : (j.closeDelegate w).run (m.change j.slot fun t => { t with closed := true })
    with ⟨report, m'⟩
  replace hdelegate : report.performed := by rwa [hrun] at hdelegate
  simp only [close, Call.run_bind, Call.run_get, h, Bool.false_eq_true, if_false, run_onJanitor, hrun]
  by_cases hzero : (m'.janitor j.slot).openCursors = 0
  · simp only [hzero, if_true, Call.run_bind, Call.run_pure, Report.merge, hdelegate, Bool.true_or]
  · simp only [hzero, if_false, Call.run_pure, hdelegate]

theorem performed_release (h : (m.janitor j.slot).released = false) :
    ((j.release w).run m).1.performed := by
  have hdelegate : ∀ report m, ((j.releaseDelegate w report).run m).1.performed =
      report.performed := fun report m => performed_record ..
  simp only [release, Call.run_bind, Call.run_get, h, Bool.false_eq_true, if_false, hdelegate]
  rfl

end Janitor

theorem Switches.Suffice.closeJanitor (hw : w.Suffice n) (j : Janitor) {m : Store α}
    (hm : m.pending ≤ n + 1) :
    m.Advances ((j.close w).run m).2 ∧ (((j.close w).run m).2.janitor j.slot).closed := by
  cases hopen : (m.janitor j.slot).closed with
  | true =>
    rw [Janitor.run_close_of_closed hopen]
    exact ⟨.refl m, hopen⟩
  | false =>
    have hlt := lt_of_closed_eq_false hopen
    have hflags : m.FlagsMono
        (m.change j.slot fun t => { t with closed := true, closings := t.closings + 1 }) :=
      .of_change (fun _ _ => rfl) fun _ => id
    have hended := hflags.pending_lt (.closed j.slot hopen (by rw [janitor_change_self hlt]))
    have hdelegate := hw.closeDelegate j (m := m.change j.slot fun t => { t with closed := true })
      (by rw [change_change]; exact Nat.le_of_lt_succ (hended.trans_le hm))
    rw [change_change] at hdelegate
    rcases hrun : (j.closeDelegate w).run (m.change j.slot fun t => { t with closed := true })
      with ⟨report, m'⟩
    rw [hrun] at hdelegate
    have hpending := hdelegate.pending_le.trans (Nat.le_of_lt_succ (hended.trans_le hm))
    simp only [Janitor.close, Call.run_bind, Call.run_get, hopen, Bool.false_eq_true, if_false,
      run_onJanitor, hrun]
    by_cases hzero : (m'.janitor j.slot).openCursors = 0
    · obtain ⟨h, hr⟩ := hw.release j m' hpending (.inl (.inr hzero))
      have hall := hdelegate.trans h
      simp only [hzero, if_true]
      refine ⟨hall.of_change fun _ h => .of_close hopen h fun _ => hr, ?_⟩
      exact (hall.janitor j.slot).closed (by rw [janitor_change_self hlt]; rfl)
    · simp only [hzero, if_false]
      refine ⟨hdelegate.of_change fun _ h => .of_close hopen h fun h => absurd h hzero, ?_⟩
      exact (hdelegate.janitor j.slot).closed (by rw [janitor_change_self hlt]; rfl)

theorem Switches.Suffice.releaseJanitor (hw : w.Suffice n) (j : Janitor) {m : Store α}
    (hm : m.pending ≤ n + 1) (hdue : (m.janitor j.slot).Due ∨ (m.janitor j.slot).released) :
    m.Advances ((j.release w).run m).2 ∧ (((j.release w).run m).2.janitor j.slot).released := by
  cases hopen : (m.janitor j.slot).released with
  | true =>
    rw [Janitor.run_release_of_released hopen]
    exact ⟨.refl m, hopen⟩
  | false =>
    have hlt := lt_of_released_eq_false hopen
    have hflags : m.FlagsMono (m.change j.slot fun t => { t with released := true }) :=
      .of_change (fun _ => id) fun _ _ => rfl
    have hended := hflags.pending_lt (.released j.slot hopen (by rw [janitor_change_self hlt]))
    have hpending := Nat.le_of_lt_succ (hended.trans_le hm)
    have hclose := hw.close j _ hpending
    have hclosed := hw.closed j _ hpending
    rcases hrun : (w.close j).run (m.change j.slot fun t => { t with released := true })
      with ⟨report, m'⟩
    rw [hrun] at hclose hclosed
    have hflags' : m'.FlagsMono (m'.change j.slot fun t => { t with releasings := t.releasings + 1 }) :=
      .of_change (fun _ => id) fun _ => id
    have hdelegate := hw.releaseDelegate j (Report.begun.merge report)
      (hflags'.pending_le.trans (hclose.pending_le.trans hpending))
    simp only [Janitor.release, Call.run_bind, Call.run_get, hopen, Bool.false_eq_true, if_false,
      run_onJanitor, hrun]
    refine ⟨.of_changes hclose hdelegate fun _ h h' => ?_, ?_⟩
    · exact .of_release hopen (hdue.resolve_right (by simp [hopen])) h hclosed h'
    · have hsize : m'.janitors.size = m.janitors.size := hclose.size.trans size_change
      have hreleased := (hclose.janitor j.slot).released (by rw [janitor_change_self hlt])
      refine (hdelegate.janitor j.slot).released ?_
      rwa [janitor_change_self (hsize ▸ hlt)]

theorem suffice_switches (n : Nat) : (switches n : Switches α).Suffice n := by
  induction n with
  | zero =>
    refine ⟨fun _ => .pure _, fun j m hm => ?_, fun j m hm _ => ⟨.refl m, ?_⟩, fun _ => .pure _⟩
    · exact (ended_of_pending hm j.slot).1
    · exact (ended_of_pending hm j.slot).2
  | succ n ih =>
    exact ⟨fun j m hm => (ih.closeJanitor j hm).1, fun j m hm => (ih.closeJanitor j hm).2,
      fun j m => ih.releaseJanitor j, ih.closeOpenBuffer⟩

section switches

variable {m : Store α} {j : Janitor} {feed : Nat}

theorem run_close_switches (n : Nat) (h : (m.janitor j.slot).closed) :
    ((switches n).close j).run m = (.skipped, m) := by
  cases n with
  | zero => rfl
  | succ n => exact Janitor.run_close_of_closed h

theorem endings_pos (h : j.slot < m.janitors.size) : ∃ n, m.endings = n + 1 := by
  refine ⟨2 * m.janitors.size + m.feeds.cells.size - 1, ?_⟩
  unfold endings
  omega

theorem run_demand_switches (n : Nat) (h : (m.janitor j.slot).released) :
    ((switches n).demand j).run m =
      (.skipped, m.change j.slot fun t => { t with demands := t.demands + 1 }) := by
  cases n with
  | zero => rfl
  | succ n => exact Janitor.run_release_of_released ((released_demanded m j.slot).trans h)

theorem run_release_switches (left : Nat) (h : (m.janitor j.slot).released) :
    ((switches left).release j).run m = (.skipped, m) := by
  cases left with
  | zero => rfl
  | succ left => exact Janitor.run_release_of_released h

theorem run_closeBuffer_switches (left : Nat) (h : m.feeds.isOpen feed = false) :
    ((switches left).closeBuffer feed).run m = (.ok (), m) := by
  cases left with
  | zero => rfl
  | succ left =>
    have hrun : ((switches (left + 1)).closeBuffer feed).run m =
        (Store.closeBuffer (switches left) feed).run m := rfl
    rw [hrun, Store.closeBuffer, Call.run_bind, Call.run_get]
    dsimp only
    cases hb : m.feeds.buffer? feed with
    | none => rfl
    | some x =>
      have hclosed : x.closed := by simpa [Feeds.isOpen, hb] using h
      dsimp only
      rw [if_pos hclosed]
      rfl

end switches
end Replay
