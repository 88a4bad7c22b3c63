import Replay.Proofs.Accounts.Opening
import Replay.Proofs.Hosting.Releasing
import Replay.Proofs.Unlogged

/-!
The cursors of a managed provider over a buffer. A released cursor has no effect. Any other may read and
seek, which leaves the provider as it is, or be released, closed or dropped, all with the same effect on
the provider.
-/
namespace Replay

open Store

variable {α : Type}

theorem CursorOp.Reads.stays {t : CursorOp} (ht : t.Reads) (c : Cursor) (m : Store α) :
    c.Stays m.feeds (((t.perform c).run m).1.2, ((t.perform c).run m).2.feeds) := by
  have hreads := c.preserves_reader m.feeds
  have hstart := Cursor.Stays.start c m.feeds
  cases t with
  | hasNext => exact ⟨c.readsTo_hasNextBy Feeds.endsNothing_draw, rfl⟩
  | next => exact c.readsTo_nextBy Feeds.endsNothing_draw
  | read room => exact hreads.fill room hstart
  | items count => exact hreads.take count hstart
  | drain most => exact hreads.drain most #[] hstart
  | seek position => cases ht
  | release => cases ht
  | close => cases ht

theorem Cursor.alongside_released (j : Janitor) (inner : Cursor) (s s' : Feeds α) :
    Cursor.Alongside fun x y => x = (.managed j true inner, s) ∧ y = (.managed j true inner, s') where
  position := by
    rintro _ _ ⟨rfl, rfl⟩
    rfl
  hasNext := by
    rintro _ _ ⟨rfl, rfl⟩
    exact ⟨rfl, rfl, rfl⟩
  next := by
    rintro _ _ ⟨rfl, rfl⟩
    exact ⟨rfl, rfl, rfl⟩

/-- A released cursor has the same reply in all stores, and changes none. -/
theorem CursorOp.perform_released (t : CursorOp) (j : Janitor) (inner : Cursor) (m m' : Store α) :
    ∃ r : Reply α, (t.perform (.managed j true inner)).run m = ((r, .managed j true inner), m) ∧
      (t.perform (.managed j true inner)).run m' = ((r, .managed j true inner), m') := by
  rcases t.reads_or with ht | ⟨position, rfl⟩ | rfl | rfl
  · obtain ⟨hreply, h, h'⟩ := ht.beside
      (Cursor.alongside_released j inner m.feeds m'.feeds) m m' ⟨rfl, rfl⟩
    obtain ⟨hcursor, hfeeds⟩ := Prod.mk.inj h
    obtain ⟨hcursor', hfeeds'⟩ := Prod.mk.inj h'
    have hstore := ht.store (.managed j true inner) m
    have hstore' := ht.store (.managed j true inner) m'
    rw [hfeeds] at hstore
    rw [hfeeds'] at hstore'
    exact ⟨_, Prod.ext (Prod.ext rfl hcursor) hstore, Prod.ext (Prod.ext hreply.symm hcursor') hstore'⟩
  · exact ⟨_, rfl, rfl⟩
  · exact ⟨_, rfl, rfl⟩
  · exact ⟨_, rfl, rfl⟩

namespace Host

variable {a : Host} {ownership : Ownership} {closed : Bool} {count : Nat} {m m' : Store α} {c d : Cursor}

/-- A cursor of the provider, at any position. -/
def Issued (a : Host) (released : Bool) (c : Cursor) : Prop := ∃ head, c = a.cursor released head

theorem Issued.of_bare {released : Bool} (hc : a.Issued released c) (h : d.bare = c.bare) :
    a.Issued released d := by
  obtain ⟨head, rfl⟩ := hc
  cases d with
  | plain feed provider head => cases h
  | watched slot act inner => cases h
  | managed janitor released' inner =>
    injection h with hjanitor hreleased hinner
    cases inner with
    | managed janitor released inner => cases hinner
    | watched slot act inner => cases hinner
    | plain feed provider head' =>
      injection hinner with hfeed hprovider
      subst hjanitor hreleased hfeed hprovider
      exact ⟨head', rfl⟩

theorem Issued.isReleased {released : Bool} (hc : a.Issued released c) : c.isReleased = released := by
  obtain ⟨head, rfl⟩ := hc
  rfl

theorem Issued.feed {released : Bool} (hc : a.Issued released c) : c.feed = a.feed := by
  obtain ⟨head, rfl⟩ := hc
  rfl

theorem Issued.perform_released (hc : a.Issued true c) (t : CursorOp) (m m' : Store α) :
    ∃ r : Reply α, (t.perform c).run m = ((r, c), m) ∧ (t.perform c).run m' = ((r, c), m') := by
  obtain ⟨head, rfl⟩ := hc
  exact t.perform_released a.janitor (.plain a.feed a.id head) m m'

/-- The store after one more cursor was opened. -/
def more (a : Host) (m : Store α) : Store α :=
  (m.change a.slot fun t => { t with openCursors := t.openCursors + 1 }).charge a.statistics (·.openCursor)

theorem janitor_more (hslot : a.slot < m.janitors.size) :
    (a.more m).janitor a.slot =
      { m.janitor a.slot with openCursors := (m.janitor a.slot).openCursors + 1 } := by
  rw [more, janitor_charge]
  exact janitor_change_self hslot

/-- The provider increments its counters before it wraps the inner cursor. -/
theorem run_openCursor_of_open (hclosed : (m.janitor a.slot).closed = false)
    (hreleased : (m.janitor a.slot).released = false) (w : Switches α) (hook : Hook) :
    ((Provider.managed a.slot a.statistics hook (.base a.base a.id a.feed)).openCursor w).run m =
      if m.baseClosed a.base then (.raise (.providerClosed a.id), m)
      else (hook.apply w a.janitor (.plain a.feed a.id {})).run (a.more m) := by
  have hbase : ((Provider.base a.base a.id a.feed).openCursor w).run m =
      (if m.baseClosed a.base then .raise (.providerClosed a.id) else .ok (.plain a.feed a.id {}), m) := by
    rw [Provider.openCursor, Call.run_bind, Call.run_get]
    split
    · rfl
    · rfl
  rw [Provider.run_openCursor_of_open hclosed, hbase]
  by_cases hb : m.baseClosed a.base
  · rw [if_pos hb, if_pos hb]
    rfl
  · rw [if_neg hb, if_neg hb]
    exact Janitor.run_countCursor_of_unreleased (j := a.janitor) hreleased w hook _ _

namespace InUse

theorem run_openCursor (h : a.InUse ownership false count m) :
    (∃ stop, (withSwitches fun w => a.provider.openCursor w).run m = (.error stop, m)) ∨
    ∃ m', (withSwitches fun w => a.provider.openCursor w).run m = (.ok (a.cursor false {}), m') ∧
      a.InUse ownership false (count + 1) m' := by
  rw [withSwitches, Call.run_bind, Call.run_get, provider, run_openCursor_of_open h.closed h.released]
  by_cases hb : m.baseClosed a.base
  · rw [if_pos hb]
    exact .inl ⟨_, rfl⟩
  · rw [if_neg hb]
    refine .inr ⟨a.more m, rfl, ?_, ?_, ?_, h.terms⟩
    · rw [janitor_more h.slot_lt]
      exact h.closed
    · rw [janitor_more h.slot_lt]
      exact h.released
    · rw [janitor_more h.slot_lt]
      exact congrArg (· + 1) h.openCursors

theorem perform_release (h : a.InUse ownership closed count m) (head : Head) :
    (CursorOp.release.perform (a.cursor false head)).run m =
      ((.done, a.cursor true head.release), a.leave m) := by
  obtain ⟨report, hrun⟩ := h.run_releaseCursor (.plain a.feed a.id head.release)
  exact congrArg (fun x : (Report × Cursor) × Store α =>
    ((Reply.done, Cursor.managed a.janitor true x.1.2), x.2)) hrun

theorem perform_close (h : a.InUse ownership closed count m) (head : Head) :
    (CursorOp.close.perform (a.cursor false head)).run m =
      ((.done, a.cursor true head.close.release), a.leave m) := by
  obtain ⟨report, hrun⟩ := h.run_releaseCursor (.plain a.feed a.id head.close.release)
  exact congrArg (fun x : (Report × Cursor) × Store α =>
    ((Reply.done, Cursor.managed a.janitor true x.1.2), x.2)) hrun

theorem run_drop (h : a.InUse ownership closed count m) (hc : a.Issued false c) :
    (withSwitches fun w => c.drop w).run m = ((), a.leave m) := by
  obtain ⟨head, rfl⟩ := hc
  obtain ⟨report, hrun⟩ := h.run_releaseCursor (.plain a.feed a.id head.release)
  exact congrArg (fun x : (Report × Cursor) × Store α => ((), x.2)) hrun

end InUse

theorem Issued.run_drop (hc : a.Issued true c) (m : Store α) :
    (withSwitches fun w => c.drop w).run m = ((), m) := by
  obtain ⟨head, rfl⟩ := hc
  rfl

end Host
end Replay
