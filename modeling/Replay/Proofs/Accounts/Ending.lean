import Replay.Proofs.Accounts.Balance
import Replay.Proofs.Janitor.Ending

/-!
Teardown keeps counters and statistics exact. Each call is shown to be a `Transfer` for switches that
are; `countsExact_switches` then follows by induction on how many are left.
-/
namespace Replay

open Store

variable {α β γ : Type}

/-- Counts are exact below the janitor, and its own counter is not increased. -/
structure Store.TransferBelow (r : Roster) (slot : Nat) (m m' : Store α) : Prop where
  transfer : ∀ k, Transfer r (slot + 1) m k m' k
  openCursors : (m'.janitor slot).openCursors = (m.janitor slot).openCursors

def Store.Call.NeutralBelow (r : Roster) (slot : Nat) (f : Call α β) : Prop :=
  ∀ m : Store α, r.Covers m → TransferBelow r slot m (f.run m).2

theorem Store.Call.NeutralBelow.neutral {r : Roster} {slot : Nat} {f : Call α β}
    (hf : f.NeutralBelow r slot) : f.Neutral r (slot + 1) := fun m hm => (hf m hm).transfer

theorem Store.TransferBelow.refl (r : Roster) (slot : Nat) (m : Store α) : TransferBelow r slot m m :=
  ⟨.refl r _ m, rfl⟩

theorem Store.TransferBelow.trans {r : Roster} {slot : Nat} {m m' m'' : Store α}
    (h : TransferBelow r slot m m') (h' : TransferBelow r slot m' m'') : TransferBelow r slot m m'' :=
  ⟨fun k => (h.transfer k).trans (h'.transfer k), h'.openCursors.trans h.openCursors⟩

structure Switches.CountsExact (w : Switches α) (r : Roster) : Prop where
  close : ∀ {j n}, j.Under r n → (w.close j).NeutralBelow r j.slot
  release : ∀ {j n}, j.Under r n → (w.release j).NeutralBelow r j.slot
  closeBuffer : ∀ {feed n}, (∀ c : Cursor, r.chains[feed]? = some (some c) → c.Below n) →
    (w.closeBuffer feed).Neutral r n

variable {r : Roster} {w : Switches α} {n : Nat} {m : Store α} {j : Janitor}

namespace Store

theorem neutral_note (e : Event) : (note (α := α) e).Neutral r n :=
  Call.neutral_of_alike (fun _ => rfl) (fun _ => rfl) (fun _ => rfl)
    (fun _ => ⟨rfl, fun _ => rfl, fun _ => rfl⟩) fun _ _ => rfl

theorem outer_onScript (slot : Nat) {f : ScriptState → ScriptState}
    (hf : ∀ t, (f t).outer = t.outer) (m : Store α) (other : Nat) :
    (((onScript slot f).run m).2.script other).outer = (m.script other).outer := by
  change ((m.scripts.modify slot f).getD other {}).outer = (m.scripts.getD other {}).outer
  simp only [Array.getD_eq_getD_getElem?, Array.getElem?_modify]
  split
  · cases m.scripts[other]? with
    | none => rfl
    | some t => exact hf t
  · rfl

theorem neutral_onScript (slot : Nat) {f : ScriptState → ScriptState}
    (hf : ∀ t, (f t).outer = t.outer) : (onScript (α := α) slot f).Neutral r n :=
  Call.neutral_of_alike (fun _ => rfl) (fun _ => rfl) (fun _ => rfl) (fun _ => .refl _)
    (outer_onScript slot hf)

theorem neutral_closeBase (slot : Nat) : (closeBase (α := α) slot).Neutral r n :=
  Call.neutral_of_alike (fun _ => rfl) (fun _ => rfl) (fun _ => rfl) (fun _ => .refl _)
    fun _ _ => rfl

theorem neutral_newProviderId : (newProviderId (α := α)).Neutral r n :=
  Call.neutral_of_alike (fun _ => rfl) (fun _ => rfl) (fun _ => rfl) (fun _ => .refl _)
    fun _ _ => rfl

end Store

theorem neutral_record (report : Report) (provider : ProviderId) (stage : Stage)
    (outcome : Outcome StreamError Unit) :
    (report.record (α := α) provider stage outcome).Neutral r n := by
  unfold Report.record
  split
  · exact .pure _
  · exact .bind (neutral_note _) fun _ => .pure _

theorem Act.NonReentrant.neutral {act : Act} (h : act.NonReentrant) (w : Switches α) (slot : Nat) :
    (act.perform w slot).Neutral r n := by
  cases act with
  | pass => exact .pure _
  | outer ending => exact h.elim
  | panic p => exact .pure _
  | fail cue =>
    refine .bind ?_ fun _ => .pure _
    cases cue with
    | fixed e => exact .pure _
    | providerClosed => exact .bind neutral_newProviderId fun _ => .pure _

namespace Switches.CountsExact

theorem demand (hw : w.CountsExact r) (hj : j.Under r n) : (w.demand j).NeutralBelow r j.slot := by
  intro m hm
  have hdemanded : TransferBelow r j.slot m
      (m.change j.slot fun t => { t with demands := t.demands + 1 }) := by
    refine ⟨fun k => .change (Nat.lt_succ_self _) (fun _ => ?_) k, janitor_change_congr fun _ => ?_⟩
    · rfl
    · rfl
  exact hdemanded.trans (hw.release hj _ ((hdemanded.transfer 0).covers hm))

theorem closeProvider (hw : w.CountsExact r) {p : Provider} (hp : p.Under r n) :
    (p.close w none).Neutral r n := by
  induction p with
  | base slot id feed =>
    refine .bind (.pure _) fun _ => ?_
    refine .bind .get fun m => ?_
    split
    · exact .pure _
    · refine .bind (neutral_closeBase slot) fun _ => ?_
      refine .bind (neutral_note _) fun _ => ?_
      exact .pure _
  | managed slot statistics hook inner =>
    obtain ⟨-, hj⟩ := Provider.under_managed.mp hp
    refine .bind (.pure _) fun _ => ?_
    refine .bind (.map _ ((hw.close hj).neutral.mono hj.slot)) fun _ => ?_
    exact .pure _
  | scripted slot script inner ih =>
    refine .bind (.pure _) fun _ => ?_
    refine .bind .get fun m => ?_
    refine .bind (neutral_onScript slot fun _ => rfl) fun _ => ?_
    refine .bind ((hp.1.onClose _).neutral w slot) fun x => ?_
    split
    · exact .pure _
    · refine .bind (ih hp.2) fun x => ?_
      split
      · exact .pure _
      · exact (hp.1.afterClose _).neutral w slot

theorem releaseProvider (hw : w.CountsExact r) {p : Provider} (hp : p.Under r n) :
    (p.release w none).Neutral r n := by
  induction p with
  | base slot id feed =>
    obtain ⟨chain, hchain, hbelow⟩ := hp
    have hbuffer : (w.closeBuffer feed).Neutral r n := by
      refine hw.closeBuffer fun c hc => ?_
      rw [hchain] at hc
      exact hbelow c (Option.some.inj hc)
    refine .bind (.pure _) fun _ => ?_
    refine .bind (neutral_closeBase slot) fun _ => ?_
    refine .bind hbuffer fun _ => ?_
    exact .pure _
  | managed slot statistics hook inner =>
    obtain ⟨-, hj⟩ := Provider.under_managed.mp hp
    refine .bind (.pure _) fun _ => ?_
    refine .bind (.map _ ((hw.demand hj).neutral.mono hj.slot)) fun _ => ?_
    exact .pure _
  | scripted slot script inner ih =>
    refine .bind (.pure _) fun _ => ?_
    refine .bind .get fun m => ?_
    refine .bind (neutral_onScript slot fun _ => rfl) fun _ => ?_
    refine .bind ((hp.1.onRelease _).neutral w slot) fun x => ?_
    split
    · exact .pure _
    · refine .bind (ih hp.2) fun x => ?_
      split
      · exact .pure _
      · exact (hp.1.afterRelease _).neutral w slot

end Switches.CountsExact

section counting

variable {q : Nat} {L : Ledger} {k k' : Nat → Nat}

theorem Janitor.Under.countsExact_succ (hj : j.Under r n) : CountsExact r q (j.slot + 1) L m ↔
    CountsExact r q j.slot (L.owe (if j.statistics = q then (m.janitor j.slot).due else 0)
      (if j.statistics = q then (m.janitor j.slot).live else 0)) m ∧
    (m.janitor j.slot).openCursors = m.feeds.lentCounts j.slot + L.held j.slot ∧
    (m.janitor j.slot).clipped = false := by
  rw [Store.countsExact_succ, hj.statistics]
  simp only [Option.some.injEq]

theorem Janitor.Under.countsExact_change (hj : j.Under r n) {f : JanitorState → JanitorState}
    (hself : (m.change j.slot f).janitor j.slot = f (m.janitor j.slot)) :
      CountsExact r q (j.slot + 1) L (m.change j.slot f) ↔
    CountsExact r q j.slot (L.owe (if j.statistics = q then (f (m.janitor j.slot)).due else 0)
      (if j.statistics = q then (f (m.janitor j.slot)).live else 0)) m ∧
    (f (m.janitor j.slot)).openCursors = m.feeds.lentCounts j.slot + L.held j.slot ∧
    (f (m.janitor j.slot)).clipped = false := by
  rw [hj.countsExact_succ, hself]
  refine and_congr_left' ⟨fun h => ?_, fun h => ?_⟩
  all_goals
    refine h.congr rfl (fun _ _ => rfl) (fun slot hslot => ?_) rfl
    rw [janitor_change_of_ne (Nat.ne_of_gt hslot)]

theorem Janitor.Under.strike (hj : j.Under r n)
    (h : CountsExact r q (j.slot + 1) (L.hold (k + j.one)) m) :
    CountsExact r q j.slot
      ((L.owe (if j.statistics = q then (m.janitor j.slot).countDown.due else 0)
        (if j.statistics = q then (m.janitor j.slot).live else 0)).hold k)
      (if (m.janitor j.slot).released then m else m.charge j.statistics (·.closeCursors 1)) := by
  obtain ⟨hexact, hopen, -⟩ := hj.countsExact_succ.mp h
  have hone : (m.janitor j.slot).openCursors ≠ 0 := by
    rw [hopen, Ledger.held_hold, Pi.add_apply, Janitor.one_self]
    omega
  replace hexact := hexact.held (L.held + k) fun slot hslot => by
    have hzero : j.one slot = 0 := Janitor.one_eq_zero (Nat.ne_of_lt hslot)
    simp only [Ledger.owe, Ledger.hold, Pi.add_apply, hzero, add_zero]
  cases hreleased : (m.janitor j.slot).released with
  | true =>
    simp only [JanitorState.due, JanitorState.countDown, hreleased, if_true] at hexact ⊢
    exact hexact
  | false =>
    simp only [JanitorState.due, JanitorState.countDown, hreleased, Bool.false_eq_true, if_false]
      at hexact ⊢
    refine CountsExact.closeCursors ?_
    have hdue : (if j.statistics = q then (m.janitor j.slot).openCursors - 1 else 0) +
        (if j.statistics = q then 1 else 0) =
        if j.statistics = q then (m.janitor j.slot).openCursors else 0 := by
      split
      · exact Nat.sub_add_cancel (Nat.one_le_iff_ne_zero.mpr hone)
      · rfl
    simpa only [Ledger.owe, Ledger.hold, add_assoc, hdue, add_zero] using hexact

theorem Janitor.Under.countDown (hj : j.Under r n)
    (h : CountsExact r q j.slot
      (L.owe (if j.statistics = q then (m.janitor j.slot).countDown.due else 0)
        (if j.statistics = q then (m.janitor j.slot).live else 0)) m)
    (hopen : (m.janitor j.slot).openCursors = m.feeds.lentCounts j.slot + (L.held j.slot + 1))
    (hclipped : (m.janitor j.slot).clipped = false) :
    CountsExact r q (j.slot + 1) L (m.change j.slot JanitorState.countDown) := by
  refine (hj.countsExact_change (janitor_change_of_void rfl)).mpr ⟨h, ?_, ?_⟩
  · change (m.janitor j.slot).openCursors - 1 = m.feeds.lentCounts j.slot + L.held j.slot
    omega
  · rw [JanitorState.countDown, hclipped, hopen]
    simp

end counting

theorem Janitor.run_releaseCursor (w : Switches α) (j : Janitor)
    (step : Call α (Outcome StreamError Unit × Cursor)) (m : Store α) :
    (j.releaseCursor w step).run m =
      (step >>= fun x => Report.begun.record j.id .releaseCursor x.1 >>= fun report =>
        j.countOut w report >>= fun report => pure (report, x.2) : Call α (Report × Cursor)).run
        (if (m.janitor j.slot).released then m
          else m.charge j.statistics (·.closeCursors 1)) := by
  unfold Janitor.releaseCursor
  rw [Call.run_bind, Call.run_get]
  cases (m.janitor j.slot).released with
  | true => rfl
  | false => rfl

theorem Janitor.cursor_releaseCursor (w : Switches α) (j : Janitor)
    (step : Call α (Outcome StreamError Unit × Cursor)) (m : Store α) :
    ∃ m', ((j.releaseCursor w step).run m).1.2 = (step.run m').1.2 := by
  rw [run_releaseCursor]
  exact ⟨_, rfl⟩

namespace Switches.CountsExact

theorem countOut (hw : w.CountsExact r) (hj : j.Under r n) (report : Report) (hm : r.Covers m)
    (k : Nat → Nat) :
    Transfer r (j.slot + 1) (m.change j.slot JanitorState.countDown) k
      ((j.countOut w report).run m).2 k := by
  have hcovers : r.Covers (m.change j.slot JanitorState.countDown) := hm.change _ _
  rw [Janitor.run_countOut]
  split
  · exact (hw.release hj _ hcovers).transfer k
  · exact .refl r _ _ k

theorem releaseCursor (hw : w.CountsExact r) (hj : j.Under r n) {k : Nat → Nat} {P : Cursor → Prop}
    {step : Call α (Outcome StreamError Unit × Cursor)}
    (hstep : step.Transfers r j.slot k (fun x => x.2.counted) fun x => P x.2) :
    (j.releaseCursor w step).Transfers r n (k + j.one) (fun x => x.2.counted) fun x => P x.2 := by
  refine Call.Transfers.mono (n := j.slot + 1) (fun m hm => ?_) hj.slot
  rw [Janitor.run_releaseCursor]
  obtain ⟨m₀, hm₀⟩ : ∃ m₀, m₀ = if (m.janitor j.slot).released then m
    else m.charge j.statistics (·.closeCursors 1) := ⟨_, rfl⟩
  have hstruck : ∀ n, Frame n m m₀ := by
    intro n
    rw [hm₀]
    split
    · exact .refl _ _
    · exact frame_charge
  rw [← hm₀]
  obtain ⟨hreleased, hP⟩ := hstep m₀ ((hstruck j.slot).covers hm)
  rcases hx : step.run m₀ with ⟨⟨outcome, c⟩, m₁⟩
  rw [hx] at hreleased hP
  have hrecorded := neutral_record (n := j.slot) Report.begun j.id .releaseCursor outcome m₁
    (hreleased.covers ((hstruck j.slot).covers hm)) c.counted
  rcases hy : (Report.begun.record j.id .releaseCursor outcome).run m₁ with ⟨report, m₂⟩
  rw [hy] at hrecorded
  simp only [Call.run_bind, hx, hy, Call.run_pure]
  refine ⟨?_, hP⟩
  -- the step below the janitor does not change the janitor itself
  have hbelow := hreleased.trans hrecorded
  have hframe : Frame (j.slot + 1) m m₂ :=
    (hstruck _).trans (hbelow.toFrame.mono (Nat.le_succ _))
  have hjanitor : m₂.janitor j.slot = m.janitor j.slot :=
    (hbelow.above _ le_rfl).trans ((hstruck j.slot).above _ le_rfl)
  have hlent : m₂.feeds.lentCounts j.slot = m.feeds.lentCounts j.slot :=
    (hbelow.lentAbove _ le_rfl).trans ((hstruck j.slot).lentAbove _ le_rfl)
  have hcounted : Transfer r (j.slot + 1) m (k + j.one) (m₂.change j.slot JanitorState.countDown)
      c.counted := by
    refine ⟨hframe.trans (.change (Nat.lt_succ_self _) _), fun slot hslot => ?_, fun q L hL => ?_⟩
    · rw [Pi.add_apply, Janitor.one_eq_zero (Nat.ne_of_gt hslot), add_zero]
      exact hbelow.counts slot (Nat.le_of_succ_le hslot)
    · obtain ⟨-, hopen, hclipped⟩ := hj.countsExact_succ.mp hL
      have hstrike := hj.strike hL
      rw [← hm₀] at hstrike
      have hexact := hbelow.countsExact q _ hstrike
      refine hj.countDown ?_ ?_ ?_
      · rw [hjanitor]
        exact hexact
      · rw [hjanitor, hlent, hopen, Ledger.held_hold, Ledger.held_hold, Pi.add_apply,
          Janitor.one_self, hbelow.counts _ le_rfl, add_assoc]
      · rw [hjanitor, hclipped]
  exact hcounted.trans (hw.countOut hj report (hframe.covers hm) c.counted)

theorem releaseLayers (hw : w.CountsExact r) {c : Cursor} (hc : c.Under r n) :
    (c.release w).Transfers r n c.counted (fun x => x.2.counted) fun x => c.ReleasedFrom r n x.2 := by
  induction c generalizing n with
  | plain feed provider head => exact .pure rfl ⟨hc, rfl⟩
  | managed janitor released inner ih =>
    unfold Cursor.release
    cases released with
    | true => exact .pure rfl ⟨hc, rfl⟩
    | false =>
      rw [Cursor.counted_managed]
      refine (hw.releaseCursor hc.1 (ih hc.2)).bind fun x hx => ?_
      exact .pure (Cursor.counted_released _ _) ⟨⟨hc.1, hx.under⟩, congrArg (· + 1) hx.depth⟩
  | watched slot act inner ih =>
    refine (hc.1.neutral w slot).then fun x => ?_
    split
    · exact .pure rfl ⟨hc, rfl⟩
    · exact (ih hc.2).bind fun x hx => .pure rfl ⟨⟨hc.1, hx.under⟩, congrArg (· + 1) hx.depth⟩

theorem closeLayers (hw : w.CountsExact r) {c : Cursor} (hc : c.Under r n) :
    (c.close w).Transfers r n c.counted Cursor.counted (c.ReleasedFrom r n) := by
  induction c generalizing n with
  | plain feed provider head => exact .pure rfl ⟨hc, rfl⟩
  | managed janitor released inner ih =>
    unfold Cursor.close
    cases released with
    | true => exact .pure rfl ⟨hc, rfl⟩
    | false =>
      rw [Cursor.counted_managed]
      refine (((ih hc.2).hold janitor.one).mono hc.1.slot.le).bind fun d hd => ?_
      refine (hw.releaseCursor hc.1 (hw.releaseLayers hd.under)).bind fun x hx => ?_
      exact .pure (Cursor.counted_released _ _)
        ⟨⟨hc.1, hx.under⟩, congrArg (· + 1) (hx.depth.trans hd.depth)⟩
  | watched slot act inner ih =>
    exact (ih hc.2).bind fun d hd => .pure rfl ⟨⟨hc.1, hd.under⟩, congrArg (· + 1) hd.depth⟩

theorem dropLayers (hw : w.CountsExact r) (layers : Nat) {c : Cursor} (hc : c.Under r n)
    (hdepth : c.depth ≤ layers) :
    (c.dropLayers w layers).Transfers r n c.counted (fun _ => 0) fun _ => True := by
  induction layers generalizing c n with
  | zero =>
    cases c with
    | plain feed provider head => exact .pure rfl trivial
    | managed janitor released inner => exact absurd hdepth (Nat.not_succ_le_zero _)
    | watched slot act inner => exact absurd hdepth (Nat.not_succ_le_zero _)
  | succ layers ih =>
    cases c with
    | plain feed provider head => exact .pure rfl trivial
    | managed janitor released inner =>
      have hinner : inner.depth ≤ layers := Nat.le_of_succ_le_succ hdepth
      unfold Cursor.dropLayers
      cases released with
      | true =>
        rw [Cursor.counted_released]
        exact (ih hc.2 hinner).mono hc.1.slot.le
      | false =>
        rw [Cursor.counted_managed]
        refine (hw.releaseCursor hc.1 (hw.releaseLayers hc.2)).bind fun x hx => ?_
        exact (ih hx.under (hx.depth.trans_le hinner)).mono hc.1.slot.le
    | watched slot act inner => exact ih hc.2 (Nat.le_of_succ_le_succ hdepth)

theorem dropCursor (hw : w.CountsExact r) {c : Cursor} (hc : c.Under r n) :
    (c.drop w).Transfers r n c.counted (fun _ => 0) fun _ => True :=
  hw.dropLayers c.depth hc le_rfl

end Switches.CountsExact

end Replay
