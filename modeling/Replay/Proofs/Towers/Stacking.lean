import Replay.Proofs.Towers.Wrapping

/-!
A store with one more managed provider, around the outermost one of another store. Operations on the
outer provider and its cursors have the same results as those on the inner one, and keep this relation.
-/
namespace Replay

open Store

variable {α β : Type} {r : Roster} {n a b left : Nat} {m m' m₁ : Store α} {w : Switches α}
  {o j : Janitor} {c d : Cursor}

theorem Store.Shares.standing (h : Shares r n m m') {slot : Nat} (hslot : slot < n) :
    (m.janitor slot).standing = (m'.janitor slot).standing :=
  (congrArg JanitorState.standing (h.janitors slot hslot) :)

theorem Standing.Sound.unreleased {s : Standing} (h : s.Sound) (hopen : s.closed = false) :
    s.released = false := by
  rw [← Bool.not_eq_true] at hopen ⊢
  exact mt h hopen

/-- The state of a janitor after `open_cursor`. -/
def JanitorState.entered (t : JanitorState) : JanitorState := { t with openCursors := t.openCursors + 1 }

namespace Janitor

theorem run_openCursor_of_closed (hclosed : (m.janitor j.slot).closed) :
    (j.provider.openCursor w).run m = (.raise (.providerClosed j.id), m) :=
  Provider.run_openCursor_of_closed hclosed w .plain

theorem run_openCursor_of_error {stop : Stop StreamError} (hopen : (m.janitor j.slot).closed = false)
    (hx : (j.delegate.openCursor w).run m = (.error stop, m₁)) :
    (j.provider.openCursor w).run m = (.error stop, m₁) := by
  rw [provider, Provider.run_openCursor_of_open hopen, hx]

theorem run_openCursor_of_ok (hopen : (m.janitor j.slot).closed = false)
    (hx : (j.delegate.openCursor w).run m = (.ok c, m₁))
    (hunreleased : (m₁.janitor j.slot).released = false) :
    (j.provider.openCursor w).run m = (.ok (.managed j false c),
      (m₁.change j.slot JanitorState.entered).charge j.statistics (·.openCursor)) := by
  rw [provider, Provider.run_openCursor_of_open hopen, hx]
  exact run_countCursor_of_unreleased hunreleased w .plain c _

/-- The store in which a provider is asked for a cursor, which its janitor counts if there is one. -/
inductive Opens (r : Roster) (j : Janitor) (m : Store α) :
    Outcome StreamError Cursor → Store α → Prop
  | error (stop : Stop StreamError) {m₁ : Store α} (h : m₁.janitor j.slot = m.janitor j.slot) :
      Opens r j m (.error stop) m₁
  | ok {c : Cursor} (hc : c.Under r j.slot) {m₁ : Store α}
      (h : m₁.janitor j.slot = (m.janitor j.slot).entered) : Opens r j m (.ok (.managed j false c)) m₁

theorem opens (hw : w.CountsExact r) (hj : j.Under r n) (hinert : j.delegate.Inert) (hm : r.Covers m)
    (hsound : (m.janitor j.slot).standing.Sound) :
    j.Opens r m ((j.provider.openCursor w).run m).1 ((j.provider.openCursor w).run m).2 := by
  cases hopen : (m.janitor j.slot).closed with
  | true =>
    rw [run_openCursor_of_closed hopen]
    exact .error _ rfl
  | false =>
    obtain ⟨htransfer, hunder⟩ := hw.openCursor hj.delegate le_rfl (.inl hinert) m hm
    rcases hx : (j.delegate.openCursor w).run m with ⟨x, m₁⟩
    rw [hx] at htransfer hunder
    have hsame := htransfer.above j.slot le_rfl
    cases x with
    | error stop =>
      rw [run_openCursor_of_error hopen hx]
      exact .error _ hsame
    | ok c =>
      rw [run_openCursor_of_ok hopen hx (by rw [hsame]; exact hsound.unreleased hopen)]
      refine .ok (hunder c rfl) ?_
      rw [janitor_charge, janitor_change_self (htransfer.janitors.symm ▸ lt_of_closed_eq_false hopen), hsame]

end Janitor

/-- `m` has one more janitor than `m'`, with the standing of the one that it wraps. -/
structure Store.Stacked (r : Roster) (o j : Janitor) (m m' : Store α) : Prop
    extends Shares r o.slot m m' where
  standing : (m.janitor o.slot).standing = (m'.janitor j.slot).standing
  sound : (m'.janitor j.slot).standing.Sound

/-- A cursor of the outer provider around one of the inner. -/
structure Cursor.Around (r : Roster) (o j : Janitor) (c d : Cursor) : Prop where
  around : ∃ released inner, d = .managed j released inner ∧ c = .managed o released d ∧
    inner.Under r j.slot

namespace Store.Stacked

theorem paired (h : Stacked r o j m m') : Paired r o.slot m.endings m'.endings m m' :=
  ⟨h.toShares, m.pending_le_endings, m'.pending_le_endings⟩

variable (ho : o.Over r j) (hr : r.Sorted)

include ho

theorem inner (h : Stacked r o j m m') :
    (m.janitor o.slot).standing = (m.janitor j.slot).standing :=
  h.standing.trans (h.toShares.standing ho.inner.slot).symm

include hr

theorem close (h : Stacked r o j m m') :
    ((withSwitches fun w => w.close o).run m).1.performed =
        ((withSwitches fun w => w.close j).run m').1.performed ∧
      Stacked r o j ((withSwitches fun w => w.close o).run m).2
        ((withSwitches fun w => w.close j).run m').2 := by
  have hinner := h.inner ho
  have hclosed : (m.janitor o.slot).closed = (m'.janitor j.slot).closed := congrArg Standing.closed h.standing
  have hpending' := m'.pending_le_endings
  refine ⟨?_, ho.close hr h.paired (congrArg Standing.closed hinner) (congrArg Standing.openCursors hinner),
    ?_, ?_⟩
  · cases hopen : (m.janitor o.slot).closed with
    | true =>
      rw [(m.endsOnce o).close_again hopen, (m'.endsOnce j).close_again (hclosed.symm.trans hopen)]
    | false =>
      rw [(m.endsOnce o).performed_close hopen, (m'.endsOnce j).performed_close (hclosed.symm.trans hopen)]
  · exact (standing_close hr ho.under h.covers m.pending_le_endings).trans ((congrArg _ h.standing).trans
      (standing_close hr ho.inner h.covers' hpending').symm)
  · exact (congrArg Standing.Sound (standing_close hr ho.inner h.covers' hpending')).mpr h.sound.close

theorem demand (h : Stacked r o j m m') :
    ((withSwitches fun w => w.demand o).run m).1.performed =
        ((withSwitches fun w => w.demand j).run m').1.performed ∧
      Stacked r o j ((withSwitches fun w => w.demand o).run m).2
        ((withSwitches fun w => w.demand j).run m').2 := by
  have hinner := h.inner ho
  have hreleased : (m.janitor o.slot).released = (m'.janitor j.slot).released :=
    congrArg Standing.released h.standing
  have hstanding := standing_demand hr ho.under h.covers m.pending_le_endings (h.standing ▸ h.sound)
  have hstanding' := standing_demand hr ho.inner h.covers' m'.pending_le_endings h.sound
  refine ⟨?_, ho.demand hr h.paired hinner, ?_, ?_⟩
  · cases hopen : (m.janitor o.slot).released with
    | true =>
      rw [(m.endsOnce o).release_again hopen, (m'.endsOnce j).release_again (hreleased.symm.trans hopen)]
    | false =>
      rw [(m.endsOnce o).performed_release hopen,
        (m'.endsOnce j).performed_release (hreleased.symm.trans hopen)]
  · exact hstanding.trans ((congrArg _ h.standing).trans hstanding'.symm)
  · exact (congrArg Standing.Sound hstanding').mpr h.sound.release

theorem openCursor (h : Stacked r o j m m') :
    ((∃ stop, ((withSwitches fun w => o.provider.openCursor w).run m).1 = .error stop ∧
        ((withSwitches fun w => j.provider.openCursor w).run m').1 = .error stop) ∨
      ∃ c d : Cursor, c.Around r o j d ∧
        ((withSwitches fun w => o.provider.openCursor w).run m).1 = .ok c ∧
        ((withSwitches fun w => j.provider.openCursor w).run m').1 = .ok d) ∧
      Stacked r o j ((withSwitches fun w => o.provider.openCursor w).run m).2
        ((withSwitches fun w => j.provider.openCursor w).run m').2 := by
  have hclosed : (m.janitor o.slot).closed = (m'.janitor j.slot).closed := congrArg Standing.closed h.standing
  have hw : (switches m.endings : Switches α).Matches (switches m'.endings) r m.endings m'.endings :=
    matches_switches hr _ _
  have hprovider : j.provider.Under r o.slot := Provider.under_managed.mpr ⟨trivial, ho.inner⟩
  have hinert : j.provider.Inert := ⟨rfl, ho.inert⟩
  rw [Call.run_withSwitches, Call.run_withSwitches]
  cases hopen : (m.janitor o.slot).closed with
  | true =>
    rw [Janitor.run_openCursor_of_closed hopen, Janitor.run_openCursor_of_closed (hclosed.symm.trans hopen),
      Janitor.id, ho.delegate]
    exact ⟨.inl ⟨_, rfl, rfl⟩, h⟩
  | false =>
    have hopens := Janitor.opens (countsExact_switches hr m'.endings) ho.inner ho.inert h.covers' h.sound
    have hframe := (hw.countsExact.openCursor hprovider le_rfl (.inl hinert) m h.covers).1.toFrame
    obtain ⟨x, m₁, m₁', hx, hx', h₁⟩ := (hw.openCursor hprovider hinert _ _ h.paired).split
    rw [hx] at hframe
    rw [hx'] at hopens ⊢
    have hsame := hframe.above o.slot le_rfl
    have hdelegate : (o.delegate.openCursor (switches m.endings)).run m = (x, m₁) := by
      rw [ho.delegate]
      exact hx
    cases x with
    | error stop =>
      rw [Janitor.run_openCursor_of_error hopen hdelegate]
      cases hopens with
      | error _ hsame' =>
        refine ⟨.inl ⟨stop, rfl, rfl⟩, h₁.toShares, ?_, ?_⟩
        · rw [hsame, hsame']
          exact h.standing
        · rw [hsame']
          exact h.sound
    | ok d =>
      have hsound : (m.janitor o.slot).standing.Sound := h.standing ▸ h.sound
      rw [Janitor.run_openCursor_of_ok hopen hdelegate (by rw [hsame]; exact hsound.unreleased hopen)]
      cases hopens with
      | ok hc hsame' =>
        refine ⟨.inr ⟨_, _, ⟨false, _, rfl, rfl, hc⟩, rfl, rfl⟩,
          (h₁.toShares.changeAbove _).notes (notes_charge _ _ _) (.refl _), ?_, ?_⟩
        · rw [janitor_charge, janitor_change_self (hframe.janitors.symm ▸ lt_of_closed_eq_false hopen),
            hsame, hsame']
          exact congrArg Standing.enter h.standing
        · rw [hsame']
          exact h.sound.enter

end Store.Stacked

end Replay
