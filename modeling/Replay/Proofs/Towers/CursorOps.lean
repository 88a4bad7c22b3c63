import Replay.Proofs.Hosting.CursorOps
import Replay.Proofs.Towers.Stacking

/-!
Operations on a cursor of the outer provider against the same operations on the cursor inside it. Reads
and seeks pass through the outer layer. A release reaches the inner layer first and may release the
inner provider; the outer provider follows with the same standing.
-/
namespace Replay

open Store

variable {α β : Type} {r : Roster} {n a b left : Nat} {m m' : Store α} {w : Switches α} {o j : Janitor}
  {c d inner : Cursor}

namespace Cursor.Around

theorem hasNext (h : c.Around r o j d) (s : Feeds α) : c.hasNext s = d.hasNext s := by
  obtain ⟨released, inner, rfl, rfl, -⟩ := h.around
  cases released with
  | true => rfl
  | false => rfl

theorem next (h : c.Around r o j d) (s : Feeds α) :
    (c.next s).1 = (d.next s).1 ∧ (c.next s).2.1.Around r o j (d.next s).2.1 ∧
      (c.next s).2.2 = (d.next s).2.2 := by
  obtain ⟨released, inner, rfl, rfl, hinner⟩ := h.around
  cases released with
  | true => exact ⟨rfl, ⟨true, inner, rfl, rfl, hinner⟩, rfl⟩
  | false =>
    have hbare := (inner.readsTo_nextBy Feeds.endsNothing_draw (s := s)).2
    exact ⟨rfl, ⟨false, _, rfl, rfl, hinner.of_bare hbare⟩, rfl⟩

theorem seek (h : c.Around r o j d) (position : Nat) :
    (∃ e, c.seek position = .error e ∧ d.seek position = .error e) ∨
      ∃ c' d' : Cursor, c'.Around r o j d' ∧ c.seek position = .ok c' ∧ d.seek position = .ok d' := by
  obtain ⟨released, inner, rfl, rfl, hinner⟩ := h.around
  cases released with
  | true => exact .inl ⟨_, rfl, rfl⟩
  | false =>
    simp only [Cursor.seek, Bool.false_eq_true, if_false]
    cases hs : inner.seek position with
    | error e => exact .inl ⟨e, rfl, rfl⟩
    | ok inner' =>
      exact .inr ⟨_, _, ⟨false, inner', rfl, rfl, hinner.of_bare (Cursor.bare_seek hs)⟩, rfl, rfl⟩

end Cursor.Around

theorem Cursor.alongside_around : Cursor.Alongside (α := α) fun x y =>
    x.1.Around r o j y.1 ∧ x.2.SameCells y.2 where
  position := by
    rintro ⟨c, s⟩ ⟨d, s'⟩ ⟨h, -⟩
    obtain ⟨released, inner, rfl, rfl, -⟩ := h.around
    rfl
  hasNext := by
    rintro ⟨c, s⟩ ⟨d, s'⟩ ⟨h, hcells⟩
    have hinner := d.hasNextBy_beside Feeds.unlogged_draw hcells
    dsimp only
    rw [h.hasNext]
    exact ⟨hinner.1, h, hinner.2⟩
  next := by
    rintro ⟨c, s⟩ ⟨d, s'⟩ ⟨h, hcells⟩
    obtain ⟨hresult, haround, hfeeds⟩ := h.next s
    have hinner := d.nextBy_beside Feeds.unlogged_draw hcells
    refine ⟨hresult.trans hinner.1, ?_, ?_⟩
    · have hsame : (d.next s).2.1 = (d.next s').2.1 := hinner.2.1
      rw [← hsame]
      exact haround
    · have hsame : (d.next s).2.2.SameCells (d.next s').2.2 := hinner.2.2
      rw [hfeeds]
      exact hsame

theorem Cursor.run_release_managed (janitor : Janitor) (inner : Cursor) :
    ((managed janitor false inner).release w).run m =
      ((.ok (), managed janitor true ((janitor.releaseCursor w (inner.release w)).run m).1.2),
        ((janitor.releaseCursor w (inner.release w)).run m).2) := rfl

theorem Cursor.run_close_managed (janitor : Janitor) (inner : Cursor) :
    ((managed janitor false inner).close w).run m =
      (managed janitor true ((janitor.releaseCursor w (((inner.close w).run m).1.release w)).run
          ((inner.close w).run m).2).1.2,
        ((janitor.releaseCursor w (((inner.close w).run m).1.release w)).run
          ((inner.close w).run m).2).2) := rfl

theorem Cursor.run_drop_managed (janitor : Janitor) (inner : Cursor) :
    ((managed janitor false inner).drop w).run m =
      ((((managed janitor false inner).release w).run m).1.2.dropLayers w (inner.depth + 1)).run
        (((managed janitor false inner).release w).run m).2 := rfl

/-- The result of releasing a cursor. -/
structure Cursor.Left (r : Roster) (j : Janitor) (inner : Cursor) (m : Store α) (d : Cursor)
    (m₁ : Store α) : Prop where
  released : ∃ inner' : Cursor, d = .managed j true inner' ∧ inner.ReleasedFrom r j.slot inner'
  standing : (m₁.janitor j.slot).standing = (m.janitor j.slot).standing.leave

theorem Cursor.left_release (hr : r.Sorted) (hj : j.Under r n) (hinner : inner.Under r j.slot)
    (hm : r.Covers m) (hleft : m.pending ≤ left) :
    Left r j inner m (((managed j false inner).release (switches left)).run m).1.2
      (((managed j false inner).release (switches left)).run m).2 where
  released := ⟨_, rfl, ((countsExact_switches hr left).releaseCursor hj
    ((countsExact_switches hr left).releaseLayers hinner) m hm).2⟩
  standing := standing_releaseCursor hr hj hm hleft ((suffice_switches left).releaseLayers inner)
    fun m hm => ((countsExact_switches hr left).releaseLayers hinner m hm).1.toFrame

theorem Cursor.left_close (hr : r.Sorted) (hj : j.Under r n) (hinner : inner.Under r j.slot)
    (hm : r.Covers m) (hleft : m.pending ≤ left) :
    Left r j inner m (((managed j false inner).close (switches left)).run m).1
      (((managed j false inner).close (switches left)).run m).2 := by
  obtain ⟨htransfer, hfrom⟩ := (countsExact_switches hr left).closeLayers hinner m hm
  have hends := ((suffice_switches left).closeLayers inner m hleft).pending_le
  rw [run_close_managed]
  rcases hx : (inner.close (switches left)).run m with ⟨inner', m₁⟩
  rw [hx] at htransfer hfrom hends
  obtain ⟨⟨inner'', heq, hfrom'⟩, hstanding⟩ :=
    left_release hr hj hfrom.under (htransfer.covers hm) (hends.trans hleft)
  refine ⟨⟨inner'', heq, hfrom'.under, hfrom'.depth.trans hfrom.depth⟩, hstanding.trans ?_⟩
  rw [htransfer.above j.slot le_rfl]

theorem Janitor.Over.leave (ho : o.Over r j) (hr : r.Sorted) (h : Paired r o.slot a b m m')
    {step step' : Call α (Outcome StreamError Unit × Cursor)} (hstep : step.Along (Paired r o.slot a b) step')
    (halone : ∀ m : Store α, r.Covers m → Frame o.slot m (step.run m).2) (hends : step.Ends a)
    (hsound : (m.janitor o.slot).standing.Sound)
    (hleft : ((step'.run m').2.janitor j.slot).standing = (m.janitor o.slot).standing.leave) :
    ((o.releaseCursor (switches a) step).run m).1.2 = (step'.run m').1.2 ∧
      Stacked r o j ((o.releaseCursor (switches a) step).run m).2 (step'.run m').2 := by
  obtain ⟨hsame, hshares⟩ := ho.releaseCursor h hstep halone fun hle hclosed =>
    congrArg Standing.released (hleft.trans (Standing.leave_of_last hclosed hle))
  exact ⟨hsame, hshares, (standing_releaseCursor hr ho.under h.covers h.left hends halone).trans hleft.symm,
    hleft ▸ hsound.leave⟩

namespace Store.Stacked

variable (ho : o.Over r j) (hr : r.Sorted)

include ho in
theorem along (h : Stacked r o j m m') (ha : m.pending ≤ a) (hb : m'.pending ≤ b) {f f' : Call α β}
    (hf : f.Along (Paired r o.slot a b) f') (halone : Frame j.slot m (f.run m).2)
    (halone' : Frame j.slot m' (f'.run m').2) : Beside (Stacked r o j) (f.run m) (f'.run m') := by
  obtain ⟨hresult, hpaired⟩ := hf m m' ⟨h.toShares, ha, hb⟩
  refine ⟨hresult, hpaired.toShares, ?_, ?_⟩
  · rw [halone.above o.slot ho.inner.slot.le, halone'.above j.slot le_rfl]
    exact h.standing
  · rw [halone'.above j.slot le_rfl]
    exact h.sound

include ho hr

theorem release (h : Stacked r o j m m') (hc : c.Around r o j d) :
    ((withSwitches fun w => c.release w).run m).1.2.Around r o j
        ((withSwitches fun w => d.release w).run m').1.2 ∧
      Stacked r o j ((withSwitches fun w => c.release w).run m).2
        ((withSwitches fun w => d.release w).run m').2 := by
  rw [Call.run_withSwitches, Call.run_withSwitches]
  obtain ⟨released, inner, rfl, rfl, hinner⟩ := hc.around
  cases released with
  | true => exact ⟨hc, h⟩
  | false =>
    have hd : (Cursor.managed j false inner).Under r o.slot := ⟨ho.inner, hinner⟩
    have hw : (switches m.endings : Switches α).Matches (switches m'.endings) r m.endings m'.endings :=
      matches_switches hr _ _
    obtain ⟨⟨inner', heq, hfrom⟩, hleft⟩ :=
      Cursor.left_release hr ho.inner hinner h.covers' m'.pending_le_endings
    obtain ⟨hsame, hstacked⟩ := ho.leave hr h.paired (hw.releaseLayers hd)
      (fun m hm => (hw.countsExact.releaseLayers hd m hm).1.toFrame) ((suffice_switches _).releaseLayers _)
      (h.standing ▸ h.sound) (hleft.trans (congrArg Standing.leave h.standing.symm))
    rw [Cursor.run_release_managed o]
    exact ⟨⟨true, inner', heq, congrArg (Cursor.managed o true) hsame, hfrom.under⟩, hstacked⟩

theorem closeCursor (h : Stacked r o j m m') (hc : c.Around r o j d) :
    ((withSwitches fun w => c.close w).run m).1.Around r o j
        ((withSwitches fun w => d.close w).run m').1 ∧
      Stacked r o j ((withSwitches fun w => c.close w).run m).2
        ((withSwitches fun w => d.close w).run m').2 := by
  rw [Call.run_withSwitches, Call.run_withSwitches]
  obtain ⟨released, inner, rfl, rfl, hinner⟩ := hc.around
  cases released with
  | true => exact ⟨hc, h⟩
  | false =>
    have hd : (Cursor.managed j false inner).Under r o.slot := ⟨ho.inner, hinner⟩
    have hw : (switches m.endings : Switches α).Matches (switches m'.endings) r m.endings m'.endings :=
      matches_switches hr _ _
    have habove := (hw.countsExact.closeLayers hd m h.covers).1.above o.slot le_rfl
    have hleft := Cursor.left_close hr ho.inner hinner h.covers' m'.pending_le_endings
    -- closing the inner cursor has the same effect in both stores, and counts it out of the inner provider
    obtain ⟨d', m₁, m₁', hx, hx', hpaired⟩ := (hw.closeLayers hd m m' h.paired).split
    rw [hx] at habove
    rw [hx'] at hleft
    obtain ⟨⟨inner', rfl, hfrom⟩, hstanding⟩ := hleft
    have hsound : (m₁.janitor o.slot).standing.Sound := by
      rw [habove, h.standing]
      exact h.sound
    have hreleased : ((m₁'.janitor j.slot).standing = (m₁.janitor o.slot).standing.leave) := by
      rw [habove, h.standing]
      exact hstanding
    obtain ⟨hsame, hstacked⟩ := ho.leave hr hpaired (.pure (.ok (), Cursor.managed j true inner'))
      (fun m _ => .refl _ m) (.pure _) hsound hreleased
    rw [Cursor.run_close_managed, hx, hx']
    exact ⟨⟨true, inner', rfl, congrArg (Cursor.managed o true) hsame, hfrom.under⟩, hstacked⟩

theorem dropInner (h : Stacked r o j m m') (ha : m.pending ≤ a) (hb : m'.pending ≤ b)
    (hinner : inner.Under r j.slot) {layers : Nat} (hdepth : inner.depth ≤ layers) :
    Stacked r o j ((inner.dropLayers (switches a) layers).run m).2
      ((inner.dropLayers (switches b) layers).run m').2 := by
  have hw : (switches a : Switches α).Matches (switches b) r a b := matches_switches hr a b
  exact (h.along ho ha hb (hw.dropLayers layers (hinner.mono ho.inner.slot.le))
    (hw.countsExact.dropLayers layers hinner hdepth m h.covers).1.toFrame
    ((countsExact_switches hr b).dropLayers layers hinner hdepth m' h.covers').1.toFrame).2

theorem drop (h : Stacked r o j m m') (hc : c.Around r o j d) :
    Stacked r o j ((withSwitches fun w => c.drop w).run m).2
      ((withSwitches fun w => d.drop w).run m').2 := by
  have hreleased := h.release ho hr hc
  rw [Call.run_withSwitches, Call.run_withSwitches] at hreleased ⊢
  obtain ⟨released, inner, rfl, rfl, hinner⟩ := hc.around
  cases released with
  | true => exact h.dropInner ho hr m.pending_le_endings m'.pending_le_endings hinner le_rfl
  | false =>
    have hfrom := (Cursor.left_release hr ho.inner hinner h.covers' m'.pending_le_endings).released
    have hends := ((suffice_switches m.endings).releaseLayers (.managed o false (.managed j false inner)) m
      m.pending_le_endings).pending_le.trans m.pending_le_endings
    have hends' := ((suffice_switches m'.endings).releaseLayers (.managed j false inner) m'
      m'.pending_le_endings).pending_le.trans m'.pending_le_endings
    rw [Cursor.run_drop_managed, Cursor.run_drop_managed]
    rcases hx : ((Cursor.managed o false (.managed j false inner)).release (switches m.endings)).run m
      with ⟨⟨outcome, c'⟩, m₁⟩
    rcases hx' : ((Cursor.managed j false inner).release (switches m'.endings)).run m'
      with ⟨⟨outcome', d'⟩, m₁'⟩
    rw [hx, hx'] at hreleased
    rw [hx] at hends
    rw [hx'] at hends' hfrom
    obtain ⟨⟨released, inner', hd', hc', hinner'⟩, hstacked⟩ := hreleased
    obtain ⟨inner'', heq, hfrom⟩ := hfrom
    dsimp only at hd' hc' heq
    subst hd' hc'
    cases heq
    exact hstacked.dropInner ho hr hends hends' hinner' hfrom.depth.le

/-- An operation on a cursor of the outer provider has the result of the same operation on the inner
one. -/
theorem take (h : Stacked r o j m m') (hc : c.Around r o j d) (t : CursorOp) :
    ((t.perform c).run m).1.1 = ((t.perform d).run m').1.1 ∧
      ((t.perform c).run m).1.2.Around r o j ((t.perform d).run m').1.2 ∧
      Stacked r o j ((t.perform c).run m).2 ((t.perform d).run m').2 := by
  rcases t.reads_or with ht | ⟨position, rfl⟩ | rfl | rfl
  · obtain ⟨hreply, haround, hcells⟩ := ht.beside Cursor.alongside_around (c := c) (d := d) m m'
      ⟨hc, h.cells⟩
    have hreads := (ht.stays c m).1
    have hframe : Frame 0 m { m with feeds := ((t.perform c).run m).2.feeds } :=
      (Transfer.of_feeds (r := r) hreads.alike 0).toFrame
    rw [ht.store c m, ht.store d m']
    exact ⟨hreply, haround, h.toShares.feeds hcells hframe, h.standing, h.sound⟩
  · rw [CursorOp.perform, CursorOp.perform]
    rcases hc.seek position with ⟨e, hs, hs'⟩ | ⟨c', d', haround, hs, hs'⟩
    · rw [hs, hs']
      exact ⟨rfl, hc, h⟩
    · rw [hs, hs']
      exact ⟨rfl, haround, h⟩
  · simp only [CursorOp.perform, Call.run_bind, Call.run_pure]
    exact ⟨trivial, h.release ho hr hc⟩
  · simp only [CursorOp.perform, Call.run_bind, Call.run_pure]
    exact ⟨trivial, h.closeCursor ho hr hc⟩

end Store.Stacked

end Replay
