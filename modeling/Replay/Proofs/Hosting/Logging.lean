import Replay.Proofs.Hosting.Recording

/-!
The log while cursors of a managed provider are opened and released. The last release of a closed
provider logs no open cursor.
-/
namespace Replay

open Store

variable {α β : Type}

namespace Host

variable {a : Host} {source : Source α} {config : Config} {m m' : Store α} {outstanding faults : Nat}
  {was : Bool} {c d : Cursor} {f : Call α β}

/-- A cursor of the buffer, or of the provider on it. -/
def Owns (a : Host) : Cursor → Prop
  | .plain feed _ _ => feed = a.feed
  | .managed janitor _ inner => janitor = a.janitor ∧ a.Owns inner
  | .watched .. => False

namespace Owns

theorem feed (hc : a.Owns c) : c.feed = a.feed := by
  induction c with
  | plain feed provider head => exact hc
  | managed janitor released inner ih => exact ih hc.2
  | watched slot act inner ih => exact hc.elim

theorem bare_iff : a.Owns c.bare ↔ a.Owns c := by
  induction c with
  | plain feed provider head => exact Iff.rfl
  | managed janitor released inner ih => exact and_congr_right fun _ => ih
  | watched slot act inner ih => exact Iff.rfl

theorem of_bare (hc : a.Owns c) (h : d.bare = c.bare) : a.Owns d := bare_iff.mp (h ▸ bare_iff.mpr hc)

theorem release (hc : a.Owns c) (w : Switches α) (m : Store α) : a.Owns ((c.release w).run m).1.2 := by
  induction c generalizing m with
  | plain feed provider head => exact hc
  | managed janitor released inner ih =>
    rw [Cursor.release]
    split
    · exact hc
    · obtain ⟨m', hm'⟩ := Janitor.cursor_releaseCursor w janitor (inner.release w) m
      have hinner := ih hc.2 m'
      rw [← hm'] at hinner
      exact ⟨hc.1, hinner⟩
  | watched slot act inner ih => exact hc.elim

theorem skip (hc : a.Owns c) (count : Nat) (m : Store α) : a.Owns ((c.skip count).run m).1.2 := by
  induction count generalizing c m with
  | zero => exact hc
  | succ count ih =>
    have hnext : a.Owns ((c.read).run m).1.2 := hc.of_bare (c.readsTo_nextBy Feeds.endsNothing_draw).2
    rw [Cursor.skip, Call.run_bind]
    rcases hrun : (c.read).run m with ⟨⟨(_ | p) | x, c'⟩, m'⟩
    all_goals rw [hrun] at hnext
    · exact ih hnext m'
    · exact hnext
    · exact ih hnext m'

theorem close (hc : a.Owns c) (w : Switches α) (m : Store α) : a.Owns ((c.close w).run m).1 := by
  induction c generalizing m with
  | plain feed provider head => exact hc
  | managed janitor released inner ih =>
    rw [Cursor.close]
    split
    · exact hc
    · obtain ⟨m', hm'⟩ := Janitor.cursor_releaseCursor w janitor (((inner.close w).run m).1.release w)
        ((inner.close w).run m).2
      have hinner := (ih hc.2 m).release w m'
      rw [← hm'] at hinner
      exact ⟨hc.1, hinner⟩
  | watched slot act inner ih => exact hc.elim

end Owns

section ending

variable (hsource : source.cursor? = none) (hvalid : config.validate = .ok ())

include hsource hvalid

theorem under_countOut (left : Nat) (report : Report) :
    (a.janitor.countOut (switches (left + 2)) report).Under (a.Logged source config was) := by
  intro m h
  have hself : (m.change a.slot JanitorState.countDown).janitor a.slot = (m.janitor a.slot).countDown :=
    janitor_change_of_void rfl
  have hless : a.Logged source config was (m.change a.slot JanitorState.countDown) :=
    h.change (fun _ => rfl) (fun _ => rfl) fun _ hnone => by rw [JanitorState.countDown, hnone]
  rw [Janitor.run_countOut, slot_janitor]
  split
  · rename_i hlast
    rw [Bool.and_eq_true, decide_eq_true_iff] at hlast
    have hidle : ((m.change a.slot JanitorState.countDown).janitor a.slot).openCursors = 0 := by
      rw [hself]
      exact Nat.sub_eq_zero_of_le hlast.1
    exact hless.release hsource hvalid hidle left
  · exact hless

theorem under_releaseCursor (left : Nat) {step : Call α (Outcome StreamError Unit × Cursor)}
    (hstep : step.Under (a.Logged source config was)) :
    (a.janitor.releaseCursor (switches (left + 2)) step).Under (a.Logged source config was) := by
  intro m h
  have hP : Store.FeedsJanitorsOnly (a.Logged source config was) := feedsJanitorsOnly_logged
  have hstart : a.Logged source config was (if (m.janitor a.janitor.slot).released then m
      else m.charge a.janitor.statistics (·.closeCursors 1)) := by
    split
    · exact h
    · exact hP.onStatistics _ _ m h
  rw [Janitor.run_releaseCursor]
  refine Call.Under.bind hstep (fun x => ?_) _ hstart
  refine .bind (hP.record _ _ _ _) fun report => ?_
  refine .bind (under_countOut hsource hvalid left report) fun _ => ?_
  exact .pure _

theorem under_release (left : Nat) (hc : a.Owns c) :
    (c.release (switches (left + 2))).Under (a.Logged source config was) := by
  induction c with
  | plain feed provider head => exact .pure _
  | managed janitor released inner ih =>
    obtain ⟨rfl, hinner⟩ := hc
    unfold Cursor.release
    split
    · exact .pure _
    · exact .bind (under_releaseCursor hsource hvalid left (ih hinner)) fun _ => .pure _
  | watched slot act inner ih => exact hc.elim

theorem under_close (left : Nat) (hc : a.Owns c) :
    (c.close (switches (left + 2))).Under (a.Logged source config was) := by
  induction c with
  | plain feed provider head => exact .pure _
  | managed janitor released inner ih =>
    obtain ⟨rfl, hinner⟩ := hc
    unfold Cursor.close
    split
    · exact .pure _
    · intro m h
      have hclosed := hinner.close (switches (left + 2)) m
      exact (Call.Under.bind (under_releaseCursor hsource hvalid left (under_release hsource hvalid
        left hclosed))
        fun _ => .pure _) _ (ih hinner m h)
  | watched slot act inner ih => exact hc.elim

theorem under_dropLayers (left layers : Nat) (hc : a.Owns c) :
    (c.dropLayers (switches (left + 2)) layers).Under (a.Logged source config was) := by
  induction layers generalizing c with
  | zero => exact .pure _
  | succ layers ih =>
    cases c with
    | plain feed provider head => exact .pure _
    | managed janitor released inner =>
      obtain ⟨rfl, hinner⟩ := hc
      unfold Cursor.dropLayers
      split
      · exact ih hinner
      · intro m h
        obtain ⟨m', hm'⟩ := Janitor.cursor_releaseCursor (switches (left + 2)) a.janitor
          (inner.release (switches (left + 2))) m
        have hrest := hinner.release (switches (left + 2)) m'
        rw [← hm'] at hrest
        exact ih hrest _
          (under_releaseCursor hsource hvalid left (under_release hsource hvalid left hinner) m h)
    | watched slot act inner => exact hc.elim

end ending

section opening

variable (hsource : source.cursor? = none) (hvalid : config.validate = .ok ())

include hsource hvalid

theorem under_applyHook (left : Nat) (hc : a.Owns c) (hook : Hook) :
    (hook.apply (switches (left + 2)) a.janitor c).Under (a.Logged source config was) := by
  have hwrapped : a.Owns (.managed a.janitor false c) := ⟨rfl, hc⟩
  cases hook with
  | skip count =>
    intro m h
    have hP : Store.BufferStable a.feed (a.Logged source config was) := bufferStable_logged hsource hvalid
    have hlogged := hP.skip count hwrapped.feed m h
    have howns := hwrapped.skip count m
    rw [Hook.apply, Call.run_bind]
    rcases hrun : ((Cursor.managed a.janitor false c).skip count).run m with ⟨⟨_ | _, c'⟩, m'⟩
    all_goals rw [hrun] at howns hlogged
    -- a cursor whose source panics during the skip is dropped, which counts it out
    · exact under_dropLayers hsource hvalid left c'.depth howns m' hlogged
    · exact hlogged
  | released => exact .bind (under_release hsource hvalid left hwrapped) fun _ => .pure _
  | plain => exact .pure _
  | raw => exact .pure _
  | seek position => exact .pure _
  | doubled => exact .pure _

omit hsource hvalid in
theorem Logged.more (h : a.Logged source config was m) (hopen : (m.janitor a.slot).released = false) :
    a.Logged source config was (a.more m) := by
  have hP : Store.FeedsJanitorsOnly (a.Logged source config was) := feedsJanitorsOnly_logged
  exact hP.onStatistics _ _ _ (h.change (fun _ => rfl) (fun _ => rfl) fun hreleased =>
    absurd (hopen.symm.trans hreleased) Bool.false_ne_true)

/-- The provider with any hook on its cursors. -/
def hooked (a : Host) (hook : Hook) : Provider := .managed a.slot a.statistics hook (.base a.base a.id a.feed)

theorem under_openCursor (left : Nat) (hook : Hook) :
    ((a.hooked hook).openCursor (switches (left + 2))).Under (a.Logged source config was) := by
  intro m h
  have ⟨outstanding, faults, hrecorded, _⟩ := h
  cases hclosed : (m.janitor a.slot).closed with
  | true =>
    rw [hooked, Provider.run_openCursor_of_closed hclosed]
    exact h
  | false =>
    -- an open provider is not released, and stays so while it opens a cursor
    have hopen := hrecorded.unreleased hclosed
    rw [hooked, run_openCursor_of_open hclosed hopen]
    split
    · exact h
    · exact under_applyHook hsource hvalid left (c := .plain a.feed a.id {}) rfl hook _ (h.more hopen)

end opening

end Host
end Replay
