import Replay.Proofs.Janitor.LogIndependence
import Replay.Proofs.World.Accounts

/-!
The routes by which a cursor is counted out. Releasing, closing and dropping count it out once in all.
`release_cursor` of the janitor counts out any cursor it is given: for a cursor of its own provider it
decrements once for the cursor's own release and once for itself, and again on each repetition.
-/
namespace Replay

open Store

variable {α β γ : Type}

/-- A cursor is released through itself, by closing it, or through its janitor. -/
inductive Route where
  | release
  | close
  | janitor
  deriving DecidableEq

/-- The number of decrements, given whether the cursor was released before. -/
def Route.outs (released : Bool) : Route → Nat
  | .janitor => (!released).toNat + 1
  | _ => (!released).toNat

namespace Cursor

def leave (w : Switches α) (j : Janitor) (c : Cursor) : Route → Call α Cursor
  | .release => do
    let (_, c) ← c.release w
    return c
  | .close => c.close w
  | .janitor => do
    let (_, c) ← j.releaseCursor w (c.release w)
    return c

def leaveAll (j : Janitor) (dropped : Bool) : List Route → Cursor → Call α Unit
  | [], c => if dropped then withSwitches fun w => c.drop w else pure ()
  | route :: routes, c => do
    let c ← withSwitches fun w => c.leave w j route
    c.leaveAll j dropped routes

end Cursor

def Route.outsAll (dropped : Bool) : Bool → List Route → Nat
  | released, [] => if dropped then (!released).toNat else 0
  | released, route :: routes => route.outs released + outsAll dropped true routes

theorem Route.outsAll_released (dropped : Bool) (routes : List Route) :
    outsAll dropped true routes = routes.count .janitor := by
  induction routes with
  | nil => cases dropped <;> rfl
  | cons route routes ih =>
    rw [outsAll, ih, List.count_cons]
    cases route <;> simp [outs, add_comm]

theorem Route.outsAll_eq (dropped : Bool) (routes : List Route)
    (h : routes ≠ [] ∨ dropped) : outsAll dropped false routes = routes.count .janitor + 1 := by
  cases routes with
  | nil =>
    have hdropped : dropped = true := h.resolve_left fun hne => hne rfl
    rw [hdropped]
    rfl
  | cons route routes =>
    rw [outsAll, outsAll_released, List.count_cons]
    cases route <;> simp [outs] <;> omega

namespace Store

variable {r : Roster} {slot n k : Nat} {m m' m'' : Store α}

/-- `open_cursors` is decremented `n` times, stopping at zero, and the provider is released when this is
reached while it is closed. -/
structure Parts (slot n : Nat) (m m' : Store α) : Prop where
  openCursors : (m'.janitor slot).openCursors = (m.janitor slot).openCursors - n
  closed : (m'.janitor slot).closed = (m.janitor slot).closed
  released : (m'.janitor slot).released ↔ (m.janitor slot).released ∨
    (m.janitor slot).closed ∧ 0 < n ∧ (m.janitor slot).openCursors ≤ n

theorem Parts.of_same (h : m'.janitor slot = m.janitor slot) : Parts slot 0 m m' := by
  refine ⟨?_, ?_, ?_⟩
  · rw [h, Nat.sub_zero]
  · rw [h]
  · rw [h]
    simp

theorem Parts.trans (h : Parts slot n m m') (h' : Parts slot k m' m'') :
    Parts slot (n + k) m m'' := by
  refine ⟨?_, h'.closed.trans h.closed, ?_⟩
  · rw [h'.openCursors, h.openCursors, Nat.sub_sub]
  · rw [h'.released, h.released, h.closed, h.openCursors]
    have hlast : (0 < n ∧ (m.janitor slot).openCursors ≤ n) ∨
        (0 < k ∧ (m.janitor slot).openCursors - n ≤ k) ↔
          0 < n + k ∧ (m.janitor slot).openCursors ≤ n + k := by
      omega
    rw [← hlast]
    tauto

def Call.Parts (r : Roster) (slot n : Nat) (f : Call α β) (P : β → Prop) : Prop :=
  ∀ m : Store α, r.Covers m → slot < m.janitors.size →
    (Store.Parts slot n m (f.run m).2 ∧ r.Covers (f.run m).2 ∧ slot < (f.run m).2.janitors.size) ∧
      P (f.run m).1

namespace Call.Parts

variable {f : Call α β} {g : β → Call α γ} {P : β → Prop} {Q : γ → Prop} {l : Nat → Nat}
  {l' : β → Nat → Nat}

theorem pure {x : β} (hP : P x) : Call.Parts r slot 0 (Pure.pure x : Call α β) P :=
  fun _ hm hlt => ⟨⟨.of_same rfl, hm, hlt⟩, hP⟩

theorem bind (hf : f.Parts r slot n P) (hg : ∀ x, P x → (g x).Parts r slot k Q) :
    (f >>= g).Parts r slot (n + k) Q := by
  intro m hm hlt
  obtain ⟨⟨hparts, hm', hlt'⟩, hP⟩ := hf m hm hlt
  obtain ⟨⟨hparts', hm'', hlt''⟩, hQ⟩ := hg _ hP _ hm' hlt'
  exact ⟨⟨hparts.trans hparts', hm'', hlt''⟩, hQ⟩

theorem of_transfers (hf : f.Transfers r slot l l' P) : f.Parts r slot 0 P := by
  intro m hm hlt
  obtain ⟨htransfer, hP⟩ := hf m hm
  exact ⟨⟨.of_same (htransfer.above slot le_rfl), htransfer.covers hm, htransfer.janitors ▸ hlt⟩, hP⟩

theorem withSwitches {f : Switches α → Call α β}
    (hf : ∀ left, (f (switches (left + 1))).Parts r slot n P) :
    (Replay.withSwitches f).Parts r slot n P := by
  intro m hm hlt
  have hpos : m.endings = m.endings - 1 + 1 := by
    unfold endings
    omega
  have hrun : (Replay.withSwitches f).run m = (f (switches m.endings)).run m := rfl
  rw [hrun, hpos]
  exact hf _ m hm hlt

end Call.Parts

end Store

variable {r : Roster} {n k : Nat} {m : Store α} {j : Janitor}

theorem Janitor.Under.released_release (hr : r.Sorted) (hj : j.Under r n) (hm : r.Covers m)
    (hclosed : (m.janitor j.slot).closed) (left : Nat) :
    let m' := (((switches (left + 1)).release j).run m).2
    (m'.janitor j.slot).openCursors = (m.janitor j.slot).openCursors ∧
      (m'.janitor j.slot).closed ∧ (m'.janitor j.slot).released := by
  have hrun : ((switches (left + 1)).release j).run m = (j.release (switches left)).run m := rfl
  dsimp only
  rw [hrun]
  cases hopen : (m.janitor j.slot).released with
  | true =>
    rw [Janitor.run_release_of_released hopen]
    exact ⟨rfl, hclosed, hopen⟩
  | false =>
    obtain ⟨m₁, hm₁⟩ : ∃ m₁, m₁ = m.change j.slot fun t => { t with released := true } := ⟨_, rfl⟩
    have hself : m₁.janitor j.slot = { m.janitor j.slot with released := true } := by
      rw [hm₁, janitor_change_self (lt_of_released_eq_false hopen)]
    have hskipped : ((switches left).close j).run m₁ = (.skipped, m₁) :=
      run_close_switches left (by rw [hself]; exact hclosed)
    have hcovers : r.Covers m₁ := hm₁ ▸ hm.change _ _
    have hdelegateTransfer :=
      (countsExact_switches hr left).releaseDelegate hj (Report.begun.merge .skipped) hcovers
    simp only [Janitor.release, Call.run_bind, Call.run_get, hopen, Bool.false_eq_true, if_false,
      run_onJanitor, ← hm₁, hskipped]
    have haccount := hdelegateTransfer.account
    simp only [JanitorState.account, Prod.mk.injEq, hself] at haccount
    obtain ⟨hcount, -, hstill, hreleased⟩ := haccount
    exact ⟨hcount, hstill.trans hclosed, hreleased⟩

theorem Janitor.Under.parts_countOut (hr : r.Sorted) (hj : j.Under r n) (left : Nat)
    (report : Report) :
    (j.countOut (switches (α := α) (left + 1)) report).Parts r j.slot 1 fun _ => True := by
  intro m hm hlt
  obtain ⟨m₁, hm₁⟩ : ∃ m₁, m₁ = m.change j.slot JanitorState.countDown := ⟨_, rfl⟩
  have hself : m₁.janitor j.slot = (m.janitor j.slot).countDown := by
    rw [hm₁, janitor_change_of_void rfl]
  have hcovers : r.Covers m₁ := hm₁ ▸ hm.change _ _
  have hlt₁ : j.slot < m₁.janitors.size := by rwa [hm₁, size_change]
  have hclosed : (m₁.janitor j.slot).closed = (m.janitor j.slot).closed := by rw [hself]; rfl
  rw [Janitor.run_countOut, ← hm₁, hclosed]
  by_cases hlast : (m.janitor j.slot).openCursors ≤ 1 && (m.janitor j.slot).closed
  · rw [if_pos hlast]
    rw [Bool.and_eq_true, decide_eq_true_eq] at hlast
    obtain ⟨hcount, hstill, hreleased⟩ :=
      hj.released_release hr hcovers (hclosed.trans hlast.2) left
    have hframe := ((countsExact_switches hr (left + 1)).release hj m₁ hcovers).transfer 0
    refine ⟨⟨⟨?_, hstill.trans hlast.2.symm, ?_⟩, hframe.covers hcovers, ?_⟩, trivial⟩
    · exact hcount.trans (congrArg JanitorState.openCursors hself)
    · exact iff_of_true hreleased (.inr ⟨hlast.2, Nat.one_pos, hlast.1⟩)
    · exact hframe.janitors ▸ hlt₁
  · rw [if_neg hlast]
    rw [Bool.and_eq_true, decide_eq_true_eq, not_and, Bool.not_eq_true] at hlast
    refine ⟨⟨⟨congrArg JanitorState.openCursors hself, hclosed, ?_⟩, hcovers, hlt₁⟩, trivial⟩
    have hreleased : (m₁.janitor j.slot).released = (m.janitor j.slot).released := by rw [hself]; rfl
    rw [Call.run_pure, hreleased]
    refine ⟨.inl, fun h => h.resolve_right ?_⟩
    rintro ⟨hstill, -, hle⟩
    rw [hlast hle] at hstill
    cases hstill

theorem Janitor.Under.parts_releaseCursor (hr : r.Sorted) (hj : j.Under r n) {P : Cursor → Prop}
    {left : Nat} {step : Call α (Outcome StreamError Unit × Cursor)}
    (hstep : step.Parts r j.slot k fun x => P x.2) :
    (j.releaseCursor (switches (left + 1)) step).Parts r j.slot (k + 1) fun x => P x.2 := by
  have hrest : ∀ x : Outcome StreamError Unit × Cursor, P x.2 → Call.Parts r j.slot 1
      (Report.begun.record j.id .releaseCursor x.1 >>= fun report =>
        j.countOut (switches (left + 1)) report >>= fun report =>
          pure (report, x.2) : Call α (Report × Cursor)) fun y => P y.2 := by
    intro x hx
    refine .bind (n := 0) (k := 1) (.of_transfers (Call.Neutral.transfers (neutral_record _ _ _ _) 0))
      fun report _ => ?_
    exact .bind (n := 1) (k := 0) (hj.parts_countOut hr left report) fun _ _ => .pure hx
  intro m hm hlt
  rw [Janitor.run_releaseCursor]
  obtain ⟨m₀, hm₀⟩ : ∃ m₀, m₀ = if (m.janitor j.slot).released then m
    else m.charge j.statistics (·.closeCursors 1) := ⟨_, rfl⟩
  have hstruck : r.Covers m₀ ∧ j.slot < m₀.janitors.size ∧ m₀.janitor j.slot = m.janitor j.slot := by
    rw [hm₀]
    split
    · exact ⟨hm, hlt, rfl⟩
    · exact ⟨hm.of_same (fun _ _ h => h) fun _ => rfl, hlt, rfl⟩
  obtain ⟨hcovers, hlt₀, hsame⟩ := hstruck
  rw [← hm₀]
  obtain ⟨⟨hparts, hdone⟩, hP⟩ := (hstep.bind hrest) m₀ hcovers hlt₀
  refine ⟨⟨?_, hdone⟩, hP⟩
  have htold : Parts j.slot 0 m m₀ := .of_same hsame
  simpa only [Nat.zero_add] using htold.trans hparts

section leaving

variable {inner : Cursor} {released : Bool}

def Cursor.Departed (r : Roster) (j : Janitor) (c : Cursor) : Prop :=
  ∃ inner : Cursor, c = .managed j true inner ∧ inner.Under r j.slot

theorem Janitor.Under.parts_release (hr : r.Sorted) (hj : j.Under r n) (hinner : inner.Under r j.slot)
    (left : Nat) : ((Cursor.managed j released inner).release (switches (α := α) (left + 1))).Parts r j.slot
      (!released).toNat fun x => x.2.Departed r j := by
  unfold Cursor.release
  cases released with
  | true => exact .pure ⟨inner, rfl, hinner⟩
  | false =>
    have hstep := (countsExact_switches (α := α) hr (left + 1)).releaseLayers hinner
    refine .bind (n := 1) (k := 0) (hj.parts_releaseCursor hr (.of_transfers hstep)) fun x hx => ?_
    exact .pure ⟨x.2, rfl, hx.under⟩

theorem Janitor.Under.parts_close (hr : r.Sorted) (hj : j.Under r n) (hinner : inner.Under r j.slot)
    (left : Nat) : ((Cursor.managed j released inner).close (switches (α := α) (left + 1))).Parts r j.slot
      (!released).toNat (Cursor.Departed r j) := by
  unfold Cursor.close
  cases released with
  | true => exact .pure ⟨inner, rfl, hinner⟩
  | false =>
    have hw := countsExact_switches (α := α) hr (left + 1)
    refine .bind (n := 0) (k := 1) (.of_transfers (hw.closeLayers hinner)) fun d hd => ?_
    refine .bind (n := 1) (k := 0) (hj.parts_releaseCursor hr (.of_transfers (hw.releaseLayers hd.under)))
      fun x hx => ?_
    exact .pure ⟨x.2, rfl, hx.under⟩

theorem Janitor.Under.parts_leave (hr : r.Sorted) (hj : j.Under r n) (hinner : inner.Under r j.slot)
    (left : Nat) (route : Route) :
    ((Cursor.managed j released inner).leave (switches (α := α) (left + 1)) j route).Parts r j.slot
      (route.outs released) (Cursor.Departed r j) := by
  cases route with
  | release => exact .bind (k := 0) (hj.parts_release hr hinner left) fun x hx => .pure hx
  | close => exact hj.parts_close hr hinner left
  | janitor =>
    exact .bind (k := 0) (hj.parts_releaseCursor hr (hj.parts_release hr hinner left))
      fun x hx => .pure hx

theorem Janitor.Under.parts_drop (hr : r.Sorted) (hj : j.Under r n) (hinner : inner.Under r j.slot)
    (left : Nat) : ((Cursor.managed j released inner).drop (switches (α := α) (left + 1))).Parts r j.slot
      (!released).toNat fun _ => True := by
  have hw := countsExact_switches (α := α) hr (left + 1)
  unfold Cursor.drop Cursor.depth Cursor.dropLayers
  cases released with
  | true => exact .of_transfers (hw.dropLayers inner.depth hinner le_rfl)
  | false =>
    refine .bind (n := 1) (k := 0) (hj.parts_releaseCursor hr
      (.of_transfers (hw.releaseLayers hinner))) fun x hx => ?_
    exact .of_transfers (hw.dropLayers inner.depth hx.under hx.depth.le)

theorem Janitor.Under.parts_leaveAll (hr : r.Sorted) (hj : j.Under r n) (dropped : Bool)
    (routes : List Route) (hinner : inner.Under r j.slot) :
    ((Cursor.managed j released inner).leaveAll j dropped routes : Call α Unit).Parts r j.slot
      (Route.outsAll dropped released routes) fun _ => True := by
  induction routes generalizing inner released with
  | nil =>
    unfold Cursor.leaveAll Route.outsAll
    cases dropped with
    | true =>
      rw [if_pos rfl, if_pos rfl]
      exact .withSwitches fun left => hj.parts_drop hr hinner left
    | false => exact .pure trivial
  | cons route routes ih =>
    refine .bind (.withSwitches fun left => hj.parts_leave hr hinner left route) fun c hc => ?_
    obtain ⟨inner', rfl, hinner'⟩ := hc
    exact ih hinner'

end leaving

section keeping

variable {w : Switches α} {l k : Nat → Nat} {inner : Cursor} {released : Bool} {P : Cursor → Prop}
  {step : Call α (Outcome StreamError Unit × Cursor)}

theorem Janitor.exists_run_releaseCursor (w : Switches α) (j : Janitor)
    {l : Outcome StreamError Unit × Cursor → Nat → Nat} (hstep : step.Transfers r n k l fun x => P x.2)
    (hm : r.Covers m) : ∃ report c m', Frame n m m' ∧ P c ∧
      (j.releaseCursor w step).run m =
        (j.countOut w report >>= fun report => pure (report, c) : Call α (Report × Cursor)).run m' := by
  obtain ⟨m₀, hm₀⟩ : ∃ m₀, m₀ = if (m.janitor j.slot).released then m
    else m.charge j.statistics (·.closeCursors 1) := ⟨_, rfl⟩
  have hstruck : Frame n m m₀ := by
    rw [hm₀]
    split
    · exact .refl _ _
    · exact frame_charge
  obtain ⟨htransfer, hP⟩ := hstep m₀ (hstruck.covers hm)
  have hreleased := hstruck.trans htransfer.toFrame
  have hrecorded := neutral_record (n := n) Report.begun j.id .releaseCursor (step.run m₀).1.1
    (step.run m₀).2 (hreleased.covers hm) 0
  refine ⟨((Report.begun.record j.id .releaseCursor (step.run m₀).1.1).run (step.run m₀).2).1, _, _,
    hreleased.trans hrecorded.toFrame, hP, ?_⟩
  rw [Janitor.run_releaseCursor, ← hm₀]
  rfl

theorem Janitor.janitor_releaseCursor {l : Outcome StreamError Unit × Cursor → Nat → Nat}
    (hstep : step.Transfers r j.slot k l fun x => P x.2) (hm : r.Covers m)
    (hmore : 1 < (m.janitor j.slot).openCursors) :
    ((j.releaseCursor w step).run m).2.janitor j.slot = (m.janitor j.slot).countDown := by
  obtain ⟨report, c, m', hframe, -, hrun⟩ := j.exists_run_releaseCursor w hstep hm
  have hsame : m'.janitor j.slot = m.janitor j.slot := hframe.above _ le_rfl
  have hmany : decide ((m'.janitor j.slot).openCursors ≤ 1) = false := by
    rw [hsame]
    exact decide_eq_false (Nat.not_le.mpr hmore)
  rw [hrun, Call.run_bind, Janitor.run_countOut, hmany, Bool.false_and, if_neg Bool.false_ne_true, ← hsame]
  exact janitor_change_of_void rfl

/-- Taking the cursor off the statistics commutes with releasing it. -/
theorem Janitor.run_releaseCursor_after (hw : w.TeardownCongr (OneCursorLess j.statistics)) (c : Cursor)
    (hsame : (((c.release w).run m).2.janitor j.slot).released = (m.janitor j.slot).released) :
    (j.releaseCursor w (c.release w)).run m =
      (c.release w >>= fun x => j.releaseCursor w (pure x)).run m := by
  rw [Call.run_bind, Janitor.run_releaseCursor, Janitor.run_releaseCursor, hsame]
  cases (m.janitor j.slot).released with
  | true => rfl
  | false =>
    obtain ⟨hresult, hstruck⟩ := hw.releaseLayers c m _ rfl
    have hrun : (c.release w).run (m.charge j.statistics (·.closeCursors 1)) =
        (((c.release w).run m).1,
          ((c.release w).run m).2.charge j.statistics (·.closeCursors 1)) :=
      Prod.ext hresult.symm hstruck
    simp only [Bool.false_eq_true, if_false, Call.run_bind, hrun, Call.run_pure]

theorem Janitor.Under.transfers_release (hw : w.CountsExact r) (hj : j.Under r n)
    (hinner : inner.Under r j.slot) :
    ((Cursor.managed j released inner).release w).Transfers r n (Cursor.managed j released inner).counted
      (fun x => x.2.counted) fun x => x.2.Departed r j := by
  unfold Cursor.release
  cases released with
  | true => exact .pure rfl ⟨inner, rfl, hinner⟩
  | false =>
    refine (hw.releaseCursor hj (hw.releaseLayers hinner)).bind fun x hx => ?_
    exact .pure (Cursor.counted_released _ _) ⟨x.2, rfl, hx.under⟩

theorem Janitor.Under.transfers_close (hw : w.CountsExact r) (hj : j.Under r n)
    (hinner : inner.Under r j.slot) :
    ((Cursor.managed j released inner).close w).Transfers r n (Cursor.managed j released inner).counted
      Cursor.counted (Cursor.Departed r j) := by
  unfold Cursor.close
  cases released with
  | true => exact .pure rfl ⟨inner, rfl, hinner⟩
  | false =>
    refine (((hw.closeLayers hinner).hold j.one).mono hj.slot.le).bind fun d hd => ?_
    refine (hw.releaseCursor hj (hw.releaseLayers hd.under)).bind fun x hx => ?_
    exact .pure (Cursor.counted_released _ _) ⟨x.2, rfl, hx.under⟩

/-- A janitor that is given its own cursor counts out another one as well; counts stay exact if another
one was held. -/
theorem Janitor.Under.transfers_releaseOwn (hw : w.CountsExact r)
    (hs : w.TeardownCongr (OneCursorLess j.statistics))
    (hj : j.Under r n) (hinner : inner.Under r j.slot) :
    (j.releaseCursor w ((Cursor.managed j released inner).release w)).Transfers r n
      ((Cursor.managed j released inner).counted + j.one) (fun x => x.2.counted)
      fun x => x.2.Departed r j := by
  obtain ⟨c, hc⟩ : ∃ c, c = Cursor.managed j released inner := ⟨_, rfl⟩
  have hrelease : (c.release w).Transfers r n c.counted (fun x => x.2.counted) fun x => x.2.Departed r j :=
    hc ▸ hj.transfers_release hw hinner
  have hbelow : c.Below n := hc ▸ Cursor.Under.below ⟨hj, hinner⟩
  rw [← hc]
  intro m hm
  obtain ⟨report, d, m', hframe, ⟨inner', rfl, hinner'⟩, hrun⟩ := j.exists_run_releaseCursor w hrelease hm
  have hresult : ((j.releaseCursor w (c.release w)).run m).1.2 = .managed j true inner' := by
    rw [hrun]
    rfl
  have hafter : Frame n m ((j.releaseCursor w (c.release w)).run m).2 := by
    have hout := hw.countOut hj report (hframe.covers hm) 0
    rw [hrun]
    exact (hframe.trans (.change hj.slot _)).trans (hout.toFrame.mono hj.slot)
  refine ⟨⟨hafter, fun slot hslot => ?_, fun q L hL => ?_⟩, ⟨inner', hresult, hinner'⟩⟩
  · have hdeparted : (Cursor.managed j true inner').Under r n := ⟨hj, hinner'⟩
    dsimp only
    rw [hresult, hdeparted.below.counted_eq_zero hslot, Pi.add_apply, hbelow.counted_eq_zero hslot,
      Janitor.one_eq_zero (Nat.ne_of_gt (hj.slot.trans_le hslot))]
  · -- another cursor is held, so this one is not the last
    have hstays : (((c.release w).run m).2.janitor j.slot).released = (m.janitor j.slot).released := by
      subst hc
      cases released with
      | true => rfl
      | false =>
        have hmore : 1 < (m.janitor j.slot).openCursors := by
          rw [hL.open_eq j.slot hj.slot, Ledger.held_hold, Cursor.counted_managed, Pi.add_apply, Pi.add_apply,
            Janitor.one_self]
          omega
        have hleft := congrArg JanitorState.released
          (Janitor.janitor_releaseCursor (w := w) (hw.releaseLayers hinner) hm hmore)
        exact hleft
    have htwice : (c.release w >>= fun x => j.releaseCursor w (pure x)).Transfers r n (c.counted + j.one)
        (fun x => x.2.counted) fun _ => True :=
      (hrelease.hold j.one).bind fun x _ =>
        hw.releaseCursor hj (P := fun _ => True) (.pure rfl trivial)
    have hexact := (htwice m hm).1.countsExact q L hL
    rwa [← Janitor.run_releaseCursor_after hs c hstays] at hexact

theorem Janitor.Under.transfers_leave (hr : r.Sorted) (hj : j.Under r n) (hinner : inner.Under r j.slot)
    (left : Nat) (route : Route) :
    ((Cursor.managed j released inner).leave (switches (α := α) left) j route).Transfers r n
      ((Cursor.managed j released inner).counted + if route = .janitor then j.one else 0) Cursor.counted
      (Cursor.Departed r j) := by
  have hw := countsExact_switches (α := α) hr left
  cases route with
  | release =>
    rw [if_neg nofun, add_zero]
    exact (hj.transfers_release hw hinner).bind fun x hx => .pure rfl hx
  | close =>
    rw [if_neg nofun, add_zero]
    exact hj.transfers_close hw hinner
  | janitor =>
    rw [if_pos rfl]
    have hcongr := teardownCongr_switches (teardownCongr_oneCursorLess (α := α) j.statistics) left
    exact (hj.transfers_releaseOwn hw hcongr hinner).bind fun x hx => .pure rfl hx

theorem Janitor.Under.transfer_leaveAll (hr : r.Sorted) (hj : j.Under r n) (hinner : inner.Under r j.slot)
    (dropped : Bool) (routes : List Route) (hm : r.Covers m) :
    ∃ left, Transfer r n m ((Cursor.managed j released inner).counted + routes.count .janitor • j.one)
      (((Cursor.managed j released inner).leaveAll j dropped routes).run m).2 left := by
  induction routes generalizing inner released m with
  | nil =>
    rw [List.count_nil, zero_nsmul, add_zero]
    unfold Cursor.leaveAll
    cases dropped with
    | true =>
      have hdrop :
        (withSwitches fun w => (Cursor.managed j released inner).drop w : Call α Unit).Transfers r n
          (Cursor.managed j released inner).counted (fun _ => 0) fun _ => True :=
        .withSwitches fun left => (countsExact_switches hr left).dropCursor ⟨hj, hinner⟩
      exact ⟨0, (hdrop m hm).1⟩
    | false => exact ⟨_, .refl r n m _⟩
  | cons route routes ih =>
    have hleave := Call.Transfers.withSwitches (r := r) (n := n)
      (f := fun w : Switches α => (Cursor.managed j released inner).leave w j route)
      fun left => hj.transfers_leave hr hinner left route
    obtain ⟨htransfer, inner', hc, hinner'⟩ := hleave m hm
    obtain ⟨left, hrest⟩ := ih hinner' (htransfer.covers hm)
    rw [← hc] at hrest
    have hasked : (route :: routes).count .janitor • j.one =
        (if route = .janitor then j.one else 0) + routes.count .janitor • j.one := by
      rw [List.count_cons, add_nsmul, add_comm]
      cases route <;> simp
    rw [hasked, ← add_assoc]
    exact ⟨left, (htransfer.hold _).trans hrest⟩

end keeping

namespace World

variable {w : World α} {c : Cursor}

theorem exists_held_eq (hc : .managed j false c ∈ w.cursors) (hbelow : c.Below j.slot)
    (hheld : k + 1 ≤ w.held j.slot) :
    ∃ others, w.held = others + ((Cursor.managed j false c).counted + k • j.one) := by
  obtain ⟨i, hi⟩ := List.getElem?_of_mem hc
  have hsplit := held_eraseIdx hi
  obtain ⟨rest, hrest⟩ : ∃ rest, rest = held { w with cursors := w.cursors.eraseIdx i } := ⟨_, rfl⟩
  rw [← hrest] at hsplit
  have hself : (Cursor.managed j false c).counted j.slot = 1 := by
    rw [Cursor.counted_managed, Pi.add_apply, hbelow.counted_eq_zero le_rfl, Janitor.one_self]
  refine ⟨rest - k • j.one, funext fun slot => ?_⟩
  rw [hsplit]
  simp only [Pi.add_apply, Pi.sub_apply, Pi.smul_apply, smul_eq_mul]
  by_cases hslot : slot = j.slot
  · subst hslot
    rw [hsplit, Pi.add_apply, hself] at hheld
    rw [Janitor.one_self]
    omega
  · rw [Janitor.one_eq_zero hslot]
    omega

/-- For every reachable world and every sequence of routes: one decrement for the cursor itself and one
for each call of the janitor; a closed provider is released exactly when these use up its count. -/
theorem counted_out {ops : List (ClientOp α)} (hw : ({} : World α).run ops = w)
    (hc : .managed j false c ∈ w.cursors) (dropped : Bool) (routes : List Route)
    (hroutes : routes ≠ [] ∨ dropped) :
    let m := (((Cursor.managed j false c).leaveAll j dropped routes).run w.store).2
    (m.janitor j.slot).openCursors = w.live j.slot - (routes.count .janitor + 1) ∧
      ((m.janitor j.slot).released ↔ (w.store.janitor j.slot).released ∨
        (w.store.janitor j.slot).closed ∧ w.live j.slot ≤ routes.count .janitor + 1) ∧
      (routes.count .janitor + 1 ≤ w.held j.slot → ∀ q < w.store.statistics.size,
        (m.statisticsAt q).cursors = (((w.sharing q).filter fun i => !(m.janitor i.slot).released).map
          fun i => (m.janitor i.slot).openCursors).sum) := by
  obtain ⟨r, hkept⟩ := (Invariant.start (α := α)).run ops
  rw [hw] at hkept
  have hstore : Store.Invariant r w.held w.store := by
    have h := hkept.store
    rwa [add_zero] at h
  obtain ⟨hj, hinner⟩ := hkept.cursors _ hc
  have hlive : (w.store.janitor j.slot).openCursors = w.live j.slot :=
    (hstore.open_eq hj.slot).1.trans (add_comm _ _)
  have hlt : j.slot < w.store.janitors.size := hstore.janitors ▸ hj.slot
  have hleave : ((Cursor.managed j false c).leaveAll j dropped routes : Call α Unit).Parts r j.slot
      (Route.outsAll dropped false routes) fun _ => True :=
    hj.parts_leaveAll hstore.sorted dropped routes hinner
  obtain ⟨⟨hparts, -⟩, -⟩ := hleave w.store hstore.covers hlt
  rw [Route.outsAll_eq dropped routes hroutes] at hparts
  refine ⟨hlive ▸ hparts.openCursors, ?_, fun hheld q hq => ?_⟩
  · rw [hparts.released, hlive]
    simp only [Nat.succ_pos, true_and]
  · obtain ⟨others, hothers⟩ := exists_held_eq hc hinner.below hheld
    have hexact : CountsExact r q r.statistics.length
        (Ledger.hold { held := others } ((Cursor.managed j false c).counted + routes.count .janitor • j.one))
        w.store := by
      have h := hstore.countsExact q hq
      rw [hothers] at h
      exact h
    obtain ⟨left, htransfer⟩ : ∃ left, Transfer r r.statistics.length w.store
        ((Cursor.managed j false c).counted + routes.count .janitor • j.one)
        (((Cursor.managed j false c).leaveAll j dropped routes).run w.store).2 left :=
      hj.transfer_leaveAll hstore.sorted hinner dropped routes hstore.covers
    rw [(htransfer.countsExact q _ hexact).cursors, hkept.total_eq_sum, sum_due]
    rfl

/-- Of two cursors of a closed provider, one is released, closed and dropped; the other stays open. -/
theorem counted_out_two : ∃ (w : World Nat) (j : Janitor) (c d : Cursor),
    ({} : World Nat).run [.addStatistics, .addBase ⟨2, 2, .unbounded, .owned⟩ (.ready (.bare #[1, 2]) rfl),
      .addManaged 0 0, .openCursor 1, .openCursor 1, .close 1] = w ∧
    w.cursors = [.managed j false c, .managed j false d] ∧
    let m := (((Cursor.managed j false c).leaveAll j true [.release, .close]).run w.store).2
    (m.janitor j.slot).openCursors = 1 ∧ ¬(m.janitor j.slot).released ∧ (m.statisticsAt 0).cursors = 1 := by
  refine ⟨_, _, _, _, rfl, rfl, ?_⟩
  obtain ⟨hcount, hreleased, hstatistics⟩ := counted_out (w := ({} : World Nat).run [.addStatistics,
    .addBase ⟨2, 2, .unbounded, .owned⟩ (.ready (.bare #[1, 2]) rfl), .addManaged 0 0, .openCursor 1,
    .openCursor 1, .close 1]) (j := ⟨0, 0, .base 0 ⟨1⟩ 0⟩) (c := .plain 0 ⟨1⟩ {}) rfl
    List.mem_cons_self true [.release, .close] (.inr rfl)
  refine ⟨hcount, fun h => ?_, hstatistics (by decide) 0 (by decide)⟩
  rcases hreleased.mp h with hbefore | ⟨-, hlast⟩
  · exact absurd (show false = true from hbefore) Bool.false_ne_true
  · exact absurd (show 2 ≤ 1 from hlast) (by decide)

/-- Of two cursors of a closed provider, one is released through the janitor; the provider is released
although the other cursor is not. -/
theorem counted_out_twice : ∃ (w : World Nat) (j : Janitor) (c d : Cursor),
    ({} : World Nat).run [.addStatistics, .addBase ⟨2, 2, .unbounded, .owned⟩ (.ready (.bare #[1, 2]) rfl),
      .addManaged 0 0, .openCursor 1, .openCursor 1, .close 1] = w ∧
    w.cursors = [.managed j false c, .managed j false d] ∧
    (w.store.janitor j.slot).openCursors = 2 ∧ (w.store.statisticsAt 0).cursors = 2 ∧
    let m := (((Cursor.managed j false c).leaveAll j false [.janitor]).run w.store).2
    (m.janitor j.slot).openCursors = 0 ∧ (m.statisticsAt 0).cursors = 0 ∧
      (m.janitor j.slot).released ∧
      ((Cursor.managed j false d).hasNext m.feeds).1 = .raise .bufferClosed := by
  let j : Janitor := ⟨0, 0, .base 0 ⟨1⟩ 0⟩
  let c : Cursor := .plain 0 ⟨1⟩ {}
  refine ⟨_, j, c, c, rfl, ?cursors, ?opened, ?counted, ?_⟩
  case cursors => rfl
  case opened => rfl
  case counted => rfl
  intro m
  have hopened : (m.janitor j.slot).openCursors = 0 := rfl
  have hcounted : (m.statisticsAt 0).cursors = 0 := rfl
  have hreleased : (m.janitor j.slot).released := rfl
  -- the second cursor was not released, but its buffer is closed
  have hread : ((Cursor.managed j false c).hasNext m.feeds).1 = .raise .bufferClosed := rfl
  exact ⟨hopened, hcounted, hreleased, hread⟩

end World
end Replay
