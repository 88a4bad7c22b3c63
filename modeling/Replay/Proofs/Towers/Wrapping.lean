import Replay.Proofs.Towers.Standing

/-!
A managed provider around a managed provider. The outer one closes, releases and counts out through the
inner one, which has already been released when the outer one releases; so the rest of the outer
teardown has no effect below it. A store with the outer provider and one without it thus stay in
agreement.
-/
namespace Replay

open Store

variable {α β : Type} {r : Roster} {n a b slot left : Nat} {m m' m₁ m₁' : Store α} {o j : Janitor}

def Janitor.provider (j : Janitor) : Provider := .managed j.slot j.statistics .plain j.delegate

theorem Janitor.run_close_provider (w : Switches α) (j : Janitor) (m : Store α) :
    (j.provider.close w none).run m = (.ok (), ((w.close j).run m).2) := rfl

theorem Janitor.run_release_provider (w : Switches α) (j : Janitor) (m : Store α) :
    (j.provider.release w none).run m = (.ok (), ((w.demand j).run m).2) := rfl

/-- `o` is the janitor of a managed provider around the managed provider of `j`. -/
structure Janitor.Over (r : Roster) (o j : Janitor) : Prop where
  under : o.Under r (o.slot + 1)
  delegate : o.delegate = j.provider
  inert : j.delegate.Inert

theorem Store.Tended.shares {f f' : JanitorState → JanitorState} (h : Tended r slot a m m₁)
    (h' : Tended r slot b m' m₁') (hbelow : Shares r slot m₁ m₁')
    (hsame : Shares r n (m.change slot f) (m'.change slot f')) :
    Shares r n (m₁.change slot f) (m₁'.change slot f') := by
  refine (((hbelow.changeAbove f).symm.changeAbove f').symm).raise ?_ ?_ fun other hother hge => ?_
  · rw [size_change, h.size, ← size_change]
    exact hsame.size
  · rw [size_change, h'.size, ← size_change]
    exact hsame.size'
  · rw [janitor_change_of_same h.size (h.above other hge),
      janitor_change_of_same h'.size (h'.above other hge)]
    exact hsame.janitors other hother

theorem Store.shares_releaseDelegate (hr : r.Sorted) (hj : j.Under r n)
    (h : Paired r n a b (m.change j.slot fun t => { t with releasings := t.releasings + 1 })
      (m'.change j.slot JanitorState.freed))
    (hclosed : (m'.janitor j.slot).closed) (hopen : (m'.janitor j.slot).released = false) (report : Report) :
    Shares r n ((j.releaseDelegate (switches a) report).run m).2 (((switches (b + 1)).release j).run m').2 :=
  ((matches_switches hr a b).releaseProvider (hj.delegate.mono hj.slot.le) _ _ h).2.toShares.notes
    (notes_releaseDelegate _ _ _ _) (release_notes j b hclosed hopen)

theorem Store.shares_release_of_open (hr : r.Sorted) (hj : j.Under r n) (hm : r.Covers m)
    (hn : n ≤ m.janitors.size) (hleft : m.pending ≤ left) (hopen : (m.janitor j.slot).closed = false)
    (hunreleased : (m.janitor j.slot).released = false) :
    Shares r n (((switches left).release j).run m).2
      (((switches left).release j).run (((switches left).close j).run m).2).2 := by
  have hlt := lt_of_closed_eq_false hopen
  obtain ⟨mr, hmr⟩ : ∃ mr, mr = m.change j.slot fun t => { t with released := true } := ⟨_, rfl⟩
  have hself : mr.janitor j.slot = { m.janitor j.slot with released := true } :=
    hmr ▸ janitor_change_self hlt
  have hopenr : (mr.janitor j.slot).closed = false := by rw [hself]; exact hopen
  have hpendingr : mr.pending < m.pending := hmr ▸ pending_releasing hunreleased
  have hpendings := pending_shut hopenr
  obtain ⟨left, rfl⟩ : ∃ k, left = k + 2 := ⟨left - 2, by omega⟩
  -- in both stores the delegate closes first, in one of them with the janitor marked released
  obtain ⟨mc, hnotes, hclose⟩ := close_cases j left hopenr
  obtain ⟨md, hnotes', hclose'⟩ := close_cases j (left + 1) hopen
  have htended := tended_close hr hj (hmr ▸ hm.change _ _) (by omega) hopenr hnotes
  have htended' := tended_close hr hj hm hleft hopen hnotes'
  have hshut : (mc.janitor j.slot).released := by
    rw [htended.above j.slot le_rfl, janitor_change_self (lt_of_closed_eq_false hopenr), hself]
    rfl
  have hshut' : md.janitor j.slot = (m.janitor j.slot).shut :=
    (htended'.above j.slot le_rfl).trans (janitor_change_self hlt)
  have hclosed' : (md.janitor j.slot).closed := by rw [hshut']; rfl
  have hunreleased' : (md.janitor j.slot).released = false := by rw [hshut']; exact hunreleased
  have hbelow : Shares r j.slot mc md := by
    have hstart : Shares r j.slot (mr.change j.slot JanitorState.shut)
        (m.change j.slot JanitorState.shut) := by
      rw [hmr]
      exact ((((Shares.refl hm hlt.le).changeAbove _).symm.changeAbove _).changeAbove _)
    have hclosed := (matches_switches hr left (left + 1)).closeProvider hj.delegate _ _
      ⟨hstart, by omega, Nat.le_of_lt_succ ((pending_shut hopen).trans_le hleft)⟩
    exact hclosed.2.toShares.notes hnotes hnotes'
  -- then it is released, after which the janitors agree
  have hstart : Shares r n (mc.change j.slot fun t => { t with releasings := t.releasings + 1 })
      (md.change j.slot JanitorState.freed) := by
    refine htended.shares htended' hbelow ?_
    rw [hmr, change_change, change_change, change_change]
    exact .refl (hm.change _ _) (hn.trans_eq size_change.symm)
  have hflags : mc.FlagsMono (mc.change j.slot fun t => { t with releasings := t.releasings + 1 }) :=
    .of_change (fun _ => id) fun _ => id
  have hpendingc := hflags.pending_le.trans (Nat.le_succ_of_le htended.pending)
  have hpendingd := (pending_freed hunreleased').trans_le htended'.pending
  have hskipped : (((switches (left + 1)).close j).run mr).2 = mc := by
    rw [hclose, run_release_switches left hshut, ite_self]
  rw [run_release_of_open j (left + 1) hunreleased, ← hmr, hskipped, hclose']
  by_cases hzero : (md.janitor j.slot).openCursors = 0
  · have hdone := (tended_release hr hj htended'.covers htended'.pending hunreleased'
      (release_notes j left hclosed' hunreleased')).above j.slot le_rfl
    rw [janitor_change_self (htended'.size.trans size_change ▸ hlt)] at hdone
    rw [if_pos hzero, run_release_switches (left + 2) (congrArg JanitorState.released hdone)]
    exact shares_releaseDelegate hr hj ⟨hstart, hpendingc, Nat.le_of_lt_succ hpendingd⟩ hclosed'
      hunreleased' _
  · rw [if_neg hzero]
    exact shares_releaseDelegate hr hj ⟨hstart, hpendingc, hpendingd.le⟩ hclosed' hunreleased' _

theorem Store.shares_release (hr : r.Sorted) (hj : j.Under r n) (hm : r.Covers m)
    (hn : n ≤ m.janitors.size) (hleft : m.pending ≤ left)
    (hunreleased : (m.janitor j.slot).released = false) :
    Shares r n (((switches left).release j).run m).2
      (((switches left).release j).run (((switches left).close j).run m).2).2 := by
  cases hopen : (m.janitor j.slot).closed with
  | true =>
    have hframe := (((countsExact_switches hr left).release hj m hm).transfer 0).toFrame
    rw [run_close_switches left hopen]
    exact .refl (hframe.covers hm) (hframe.janitors.symm ▸ hn)
  | false => exact shares_release_of_open hr hj hm hn hleft hopen hunreleased

namespace Janitor.Over

variable (ho : o.Over r j)

include ho

theorem inner : j.Under r o.slot := by
  have hdelegate := ho.under.delegate
  rw [ho.delegate] at hdelegate
  exact (Provider.under_managed.mp hdelegate).2

theorem slot_ne : o.slot ≠ j.slot := Nat.ne_of_gt ho.inner.slot

/-- After the inner provider was released, the release of the outer one has no effect below it. -/
theorem release (h : Shares r o.slot m m') (left : Nat) (hclosed : (m.janitor o.slot).closed)
    (hreleased : (m.janitor j.slot).released) :
    Shares r o.slot (((switches left).release o).run m).2 m' := by
  cases left with
  | zero => exact h
  | succ left =>
    cases hopen : (m.janitor o.slot).released with
    | true =>
      rw [run_release_switches (left + 1) hopen]
      exact h
    | false =>
      have hnotes := release_notes o left hclosed hopen
      have hreleased' : ((m.change o.slot JanitorState.freed).janitor j.slot).released := by
        rw [janitor_change_of_ne ho.slot_ne]
        exact hreleased
      rw [ho.delegate, Janitor.run_release_provider, run_demand_switches left hreleased'] at hnotes
      exact ((h.changeAbove _).asked j.slot).notes hnotes (.refl m')

theorem close (hr : r.Sorted) (h : Paired r o.slot a b m m')
    (hclosed : (m.janitor o.slot).closed = (m.janitor j.slot).closed)
    (hcount : (m.janitor o.slot).openCursors = (m.janitor j.slot).openCursors) :
    Shares r o.slot (((switches a).close o).run m).2 (((switches b).close j).run m').2 := by
  have hinner := ho.inner
  cases hopen : (m.janitor o.slot).closed with
  | true =>
    have hclosed' := (h.closed hinner.slot).symm.trans (hclosed.symm.trans hopen)
    rw [run_close_switches a hopen, run_close_switches b hclosed']
    exact h.toShares
  | false =>
    have hpending := (pending_shut hopen).trans_le h.left
    obtain ⟨left, rfl⟩ : ∃ left, a = left + 1 := ⟨a - 1, by omega⟩
    obtain ⟨m₁, hnotes, hrun⟩ := close_cases o left hopen
    have htended := tended_close hr ho.under h.covers h.left hopen hnotes
    rw [ho.delegate, Janitor.run_close_provider] at hnotes
    have hshut : Paired r o.slot left b (m.change o.slot JanitorState.shut) m' :=
      ⟨h.toShares.changeAbove _, Nat.le_of_lt_succ hpending, h.right⟩
    have hdone : Shares r o.slot m₁ (((switches b).close j).run m').2 :=
      ((matches_switches hr left b).close hinner _ _ hshut).2.toShares.notes hnotes (.refl _)
    have hself : m₁.janitor o.slot = (m.janitor o.slot).shut :=
      (htended.above o.slot le_rfl).trans (janitor_change_self (lt_of_closed_eq_false hopen))
    rw [hrun]
    split
    · rename_i hzero
      refine ho.release hdone left (by rw [hself]; rfl) ?_
      -- the inner provider has no open cursor either, so its close has released it
      have hstanding := standing_close hr hinner hshut.covers hshut.left
      rw [janitor_change_of_ne ho.slot_ne, Standing.close_of_open (s := (m.janitor j.slot).standing)
        (hclosed.symm.trans hopen)] at hstanding
      have hidle : (m.janitor j.slot).openCursors = 0 := by
        rw [← hcount, ← hzero, hself]
        rfl
      rw [hnotes.janitor]
      exact (congrArg Standing.released hstanding).trans (by simp [JanitorState.standing, hidle])
    · exact hdone

theorem release_of_open (hr : r.Sorted) (h : Paired r o.slot a b m m')
    (hclosed : (m.janitor o.slot).closed = (m.janitor j.slot).closed)
    (hcount : (m.janitor o.slot).openCursors = (m.janitor j.slot).openCursors)
    (hopen : (m.janitor o.slot).released = false) (hopen' : (m'.janitor j.slot).released = false) :
    Shares r o.slot (((switches a).release o).run m).2 (((switches b).release j).run m').2 := by
  have hinner := ho.inner
  have hpending := (pending_releasing hopen).trans_le h.left
  obtain ⟨left, rfl⟩ : ∃ left, a = left + 1 := ⟨a - 1, by omega⟩
  obtain ⟨mr, hmr⟩ : ∃ mr, mr = m.change o.slot fun t => { t with released := true } := ⟨_, rfl⟩
  have hself : mr.janitor o.slot = { m.janitor o.slot with released := true } :=
    hmr ▸ janitor_change_self (lt_of_released_eq_false hopen)
  have hsame : mr.janitor j.slot = m.janitor j.slot := hmr ▸ janitor_change_of_ne ho.slot_ne
  have hstart : Paired r o.slot left b mr m' :=
    ⟨hmr ▸ h.toShares.changeAbove _, hmr ▸ Nat.le_of_lt_succ hpending, h.right⟩
  -- the inner provider closes in both stores before it releases
  have hclose := ho.close hr hstart (by rw [hself, hsame]; exact hclosed) (by rw [hself, hsame]; exact hcount)
  have hends := ((suffice_switches left).close o mr hstart.left).pending_le.trans hstart.left
  have hends' := ((suffice_switches b).close j m' hstart.right).pending_le.trans hstart.right
  have hrelease := shares_release hr hinner hstart.covers' hstart.size' hstart.right hopen'
  rw [run_release_of_open o left hopen, ← hmr]
  rcases hx : ((switches left).close o).run mr with ⟨report, ms⟩
  rw [hx] at hclose hends
  have hnotes := notes_releaseDelegate (switches left) o (Report.begun.merge report) ms
  rw [ho.delegate, Janitor.run_release_provider] at hnotes
  have hflags : ms.FlagsMono (ms.change o.slot fun t => { t with releasings := t.releasings + 1 }) :=
    .of_change (fun _ h => h) fun _ h => h
  have hpaired : Paired r o.slot left b
      (ms.change o.slot fun t => { t with releasings := t.releasings + 1 })
      (((switches b).close j).run m').2 :=
    ⟨hclose.changeAbove _, hflags.pending_le.trans hends, hends'⟩
  have hdone := ((matches_switches hr left b).release hinner _ _ (hpaired.asked j.slot)).2
  exact (hdone.toShares.notes hnotes (.refl _)).trans hrelease.symm

theorem demand (hr : r.Sorted) (h : Paired r o.slot a b m m')
    (hstanding : (m.janitor o.slot).standing = (m.janitor j.slot).standing) :
    Shares r o.slot (((switches a).demand o).run m).2 (((switches b).demand j).run m').2 := by
  have hinner := ho.inner
  have hreleased : (m.janitor o.slot).released = (m.janitor j.slot).released :=
    congrArg Standing.released hstanding
  cases hopen : (m.janitor o.slot).released with
  | true =>
    have hreleased' := (h.released hinner.slot).symm.trans (hreleased.symm.trans hopen)
    rw [run_demand_switches a hopen, run_demand_switches b hreleased']
    exact ((h.toShares.changeAbove _).symm.asked j.slot).symm
  | false =>
    obtain ⟨md, hmd⟩ : ∃ md, md = m.change o.slot fun t => { t with demands := t.demands + 1 } := ⟨_, rfl⟩
    obtain ⟨md', hmd'⟩ : ∃ md', md' = m'.change j.slot fun t => { t with demands := t.demands + 1 } :=
      ⟨_, rfl⟩
    have hasked : Paired r o.slot a b md md' := hmd ▸ hmd' ▸ ((h.asked o.slot).symm.asked j.slot).symm
    have hself : (md.janitor o.slot).standing = (m.janitor o.slot).standing :=
      hmd ▸ janitor_change_congr fun _ => rfl
    have hsame : md.janitor j.slot = m.janitor j.slot := hmd ▸ janitor_change_of_ne ho.slot_ne
    have hstanding' : (md.janitor o.slot).standing = (md.janitor j.slot).standing :=
      hself.trans (hstanding.trans (congrArg JanitorState.standing hsame).symm)
    have hopen' : (md'.janitor j.slot).released = false := by
      rw [hmd', released_demanded, ← h.released hinner.slot, ← hreleased]
      exact hopen
    have hrun : ((switches a).demand o).run m = ((switches a).release o).run md := hmd ▸ rfl
    have hrun' : ((switches b).demand j).run m' = ((switches b).release j).run md' := hmd' ▸ rfl
    rw [hrun, hrun']
    exact ho.release_of_open hr hasked (congrArg Standing.closed hstanding')
      (congrArg Standing.openCursors hstanding') ((congrArg Standing.released hself).trans hopen) hopen'

theorem countOut (h : Shares r o.slot m m') (left : Nat) (report : Report)
    (hlast : (m.janitor o.slot).openCursors ≤ 1 → (m.janitor o.slot).closed →
      (m.janitor j.slot).released) :
    Shares r o.slot ((o.countOut (switches left) report).run m).2 m' := by
  have hcounted := h.changeAbove JanitorState.countDown
  have hclosed : ((m.change o.slot JanitorState.countDown).janitor o.slot).closed =
      (m.janitor o.slot).closed := janitor_change_congr fun _ => rfl
  rw [Janitor.run_countOut, hclosed]
  by_cases hleaves : (m.janitor o.slot).openCursors ≤ 1 ∧ (m.janitor o.slot).closed
  · rw [if_pos (by simpa using hleaves)]
    refine ho.release hcounted left (hclosed.trans hleaves.2) ?_
    rw [janitor_change_of_ne ho.slot_ne]
    exact hlast hleaves.1 hleaves.2
  · rw [if_neg (by simpa using hleaves)]
    exact hcounted

/-- Releasing a cursor of the outer provider has the effect below it that `step` has. -/
theorem releaseCursor (h : Paired r o.slot a b m m')
    {step step' : Call α (Outcome StreamError Unit × Cursor)} (hstep : step.Along (Paired r o.slot a b) step')
    (halone : ∀ m : Store α, r.Covers m → Frame o.slot m (step.run m).2)
    (hlast : (m.janitor o.slot).openCursors ≤ 1 → (m.janitor o.slot).closed →
      ((step'.run m').2.janitor j.slot).released) :
    ((o.releaseCursor (switches a) step).run m).1.2 = (step'.run m').1.2 ∧
      Shares r o.slot ((o.releaseCursor (switches a) step).run m).2 (step'.run m').2 := by
  rw [Janitor.run_releaseCursor]
  obtain ⟨m₀, hm₀⟩ : ∃ m₀, m₀ = if (m.janitor o.slot).released then m
    else m.charge o.statistics (·.closeCursors 1) := ⟨_, rfl⟩
  have hnotes : m.Notes m₀ := by
    rw [hm₀]
    split
    · exact .refl m
    · exact notes_charge _ _ m
  have h₀ := h.notes hnotes (.refl m')
  have habove := (halone m₀ h₀.covers).above o.slot le_rfl
  rw [← hm₀]
  obtain ⟨⟨outcome, c⟩, m₁, m₁', hx, hx', h₁⟩ := (hstep m₀ m' h₀).split
  rw [hx, hnotes.janitor] at habove
  rw [hx'] at hlast
  have hrecorded := notes_record Report.begun o.id .releaseCursor outcome m₁
  rcases hy : (Report.begun.record o.id .releaseCursor outcome).run m₁ with ⟨report, m₂⟩
  rw [hy] at hrecorded
  simp only [Call.run_bind, hx, hy, Call.run_pure, hx']
  refine ⟨trivial, ho.countOut (h₁.toShares.notes hrecorded (.refl _)) a report fun hle hclosed => ?_⟩
  rw [hrecorded.janitor, habove] at hle hclosed
  rw [hrecorded.janitor, h₁.released ho.inner.slot]
  exact hlast hle hclosed

end Janitor.Over

end Replay
