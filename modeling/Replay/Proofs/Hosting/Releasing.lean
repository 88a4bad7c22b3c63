import Replay.Proofs.Accounts.Ending
import Replay.Proofs.OpenReads
import Replay.Proofs.Resting

/-!
A managed provider over a buffer of its own: in use until it releases its resources, and spent
afterwards. The release comes with the last cursor once the provider is closed, or with close if no
cursor is open; it closes the buffer, and nothing afterwards changes the feeds.
-/
namespace Replay

open Store

variable {α : Type}

/-- The slots and ids of a managed provider over a buffer. -/
structure Host where
  slot : Nat
  statistics : Nat
  base : Nat
  id : ProviderId
  feed : Nat

namespace Host

variable (a : Host)

def janitor : Janitor := ⟨a.slot, a.statistics, .base a.base a.id a.feed⟩

def provider : Provider := .managed a.slot a.statistics .plain (.base a.base a.id a.feed)

/-- A cursor of the provider. -/
def cursor (released : Bool) (head : Head) : Cursor :=
  .managed a.janitor released (.plain a.feed a.id head)

@[simp] theorem slot_janitor : a.janitor.slot = a.slot := rfl

/-- The provider is not released and has `count` cursors open; the buffer is open, and its source was
never closed. -/
structure InUse (ownership : Ownership) (closed : Bool) (count : Nat) (m : Store α) : Prop where
  closed : (m.janitor a.slot).closed = closed
  released : (m.janitor a.slot).released = false
  openCursors : (m.janitor a.slot).openCursors = count
  terms : m.feeds.terms a.feed = some ⟨true, 0, some (false, ownership)⟩

/-- The provider has released the buffer `b`, which closed its source if that is owned. -/
structure Spent (b : Buffer α) (m : Store α) : Prop where
  closed : (m.janitor a.slot).closed
  buffer : m.feeds.buffer? a.feed = some b.close
  closes : m.feeds.closes a.feed = if b.ownership = .owned then 1 else 0

variable {a} {ownership : Ownership} {closed : Bool} {count : Nat} {m m' : Store α} {s : Feeds α}

theorem endings_of_lt (hslot : a.slot < m.janitors.size) (hfeed : a.feed < m.feeds.cells.size) :
    ∃ left, m.endings = left + 3 := by
  refine ⟨m.endings - 3, (Nat.sub_add_cancel ?_).symm⟩
  unfold Store.endings
  omega

namespace InUse

theorem isOpen (h : a.InUse ownership closed count m) : m.feeds.isOpen a.feed := by
  rw [Feeds.isOpen_eq_terms, h.terms]
  rfl

theorem buffer (h : a.InUse ownership closed count m) :
    ∃ b, m.feeds.buffer? a.feed = some b ∧ b.closed = false ∧ b.ownership = ownership := by
  obtain ⟨cell, hcell, hterms⟩ := Option.map_eq_some_iff.mp h.terms
  injection hterms with hsourced hcloses hbuffer
  obtain ⟨b, hb, hstatus⟩ := Option.map_eq_some_iff.mp hbuffer
  exact ⟨b, (Feeds.buffer?_eq hcell).trans hb, congrArg Prod.fst hstatus, congrArg Prod.snd hstatus⟩

theorem sourced (h : a.InUse ownership closed count m) : (m.feeds.source? a.feed).isSome := by
  rw [Feeds.sourced_eq, h.terms]
  rfl

theorem closes (h : a.InUse ownership closed count m) : m.feeds.closes a.feed = 0 := by
  obtain ⟨cell, hcell, hterms⟩ := Option.map_eq_some_iff.mp h.terms
  injection hterms with hsourced hcloses hbuffer
  rw [Feeds.closes, hcell]
  exact hcloses

theorem slot_lt (h : a.InUse ownership closed count m) : a.slot < m.janitors.size :=
  lt_of_released_eq_false h.released

theorem endings (h : a.InUse ownership closed count m) : ∃ left, m.endings = left + 3 :=
  endings_of_lt h.slot_lt (Feeds.lt_of_isOpen h.isOpen)

theorem reads (h : a.InUse ownership closed count m) (hs : m.feeds.ReadsTo s) :
    a.InUse ownership closed count { m with feeds := s } where
  closed := h.closed
  released := h.released
  openCursors := h.openCursors
  terms := (hs.terms a.feed).trans h.terms

end InUse

section ending

variable {b : Buffer α} (hb : m.feeds.buffer? a.feed = some b) (hopen : b.closed = false)
  (hsource : (m.feeds.source? a.feed).isSome)

include hb hopen hsource

theorem releaseDelegate_feeds (left : Nat) (report : Report) :
    let m' := ((a.janitor.releaseDelegate (switches (left + 1)) report).run m).2
    m'.feeds.buffer? a.feed = some b.close ∧
      m'.feeds.closes a.feed = m.feeds.closes a.feed + if b.ownership = .owned then 1 else 0 := by
  have hR : Steps (Feeds.KeepsClosedFeed (α := α) a.feed) _ := Feeds.steps_keepsClosedFeed.store
  have hrest : ∀ outcome : Outcome SourceError Unit, Call.KeepsClosedFeed (α := α) a.feed (do
      let report ← report.record a.id .releaseProvider (outcome.mapError .source)
      let outstanding := ((← get).janitor a.slot).openCursors
      onStatistics a.statistics (·.closeCursors outstanding)
      note (.resourcesReleased a.id outstanding report.faults.length)
      return report) := by
    intro outcome
    refine hR.bind (hR.record _ _ _ _) fun _ => ?_
    refine hR.bind hR.get fun _ => ?_
    refine hR.bind (hR.onStatistics _ _) fun _ => ?_
    refine hR.bind (hR.noting _) fun _ => ?_
    exact hR.pure _
  obtain ⟨hb', hcloses⟩ := (keepsClosedFeed_switches left).closeBuffer_of_open (m := ((closeBase a.base).run
    (m.change a.slot fun t => { t with releasings := t.releasings + 1 })).2) hb hopen hsource
  obtain ⟨hb'', hcloses'⟩ := hrest _ _ _ hb' rfl
  exact ⟨hb'', hcloses'.trans hcloses⟩

theorem release_feeds (left : Nat) (hclosed : (m.janitor a.slot).closed)
    (hreleased : (m.janitor a.slot).released = false) :
    let m' := (((switches (left + 2)).release a.janitor).run m).2
    m'.feeds.buffer? a.feed = some b.close ∧
      m'.feeds.closes a.feed = m.feeds.closes a.feed + if b.ownership = .owned then 1 else 0 := by
  obtain ⟨m₁, hm₁⟩ : ∃ m₁, m₁ = m.change a.slot fun t => { t with released := true } := ⟨_, rfl⟩
  have hsame : (m₁.janitor a.slot).closed = (m.janitor a.slot).closed := by
    rw [hm₁]
    refine janitor_change_congr fun _ => ?_
    rfl
  have hskipped : ((switches (left + 1)).close a.janitor).run m₁ = (.skipped, m₁) :=
    run_close_switches (left + 1) (hsame.trans hclosed)
  have hrun : (((switches (left + 2)).release a.janitor).run m).2 =
      ((a.janitor.releaseDelegate (switches (left + 1)) (Report.begun.merge .skipped)).run m₁).2 := by
    rw [switches]
    simp only [Janitor.release, Call.run_bind, Call.run_get, slot_janitor, hreleased,
      Bool.false_eq_true, if_false, run_onJanitor, ← hm₁, hskipped]
  rw [hrun]
  have hfeeds : m₁.feeds = m.feeds := by
    rw [hm₁]
    rfl
  rw [← hfeeds] at hb hsource ⊢
  exact releaseDelegate_feeds hb hopen hsource left _

end ending

/-- The store after one cursor of the provider was subtracted. -/
def less (a : Host) (m : Store α) : Store α :=
  (m.charge a.statistics (·.closeCursors 1)).change a.slot JanitorState.countDown

/-- The store after a cursor of the provider was released. -/
def leave (a : Host) (m : Store α) : Store α :=
  ((a.janitor.countOut (switches m.endings) .begun).run
    (m.charge a.statistics (·.closeCursors 1))).2

namespace InUse

theorem run_releaseCursor (h : a.InUse ownership closed count m) (d : Cursor) :
    ∃ report, (a.janitor.releaseCursor (switches m.endings) (pure (.ok (), d))).run m =
      ((report, d), a.leave m) := by
  have hopen : (m.janitor a.janitor.slot).released = false := h.released
  rw [Janitor.run_releaseCursor, hopen]
  exact ⟨_, rfl⟩

theorem less (h : a.InUse ownership closed (count + 1) m) :
    a.InUse ownership closed count (a.less m) := by
  have hsame : (a.less m).janitor a.slot = (m.janitor a.slot).countDown :=
    janitor_change_of_void rfl
  refine ⟨?_, ?_, ?_, h.terms⟩
  · rw [hsame]
    exact h.closed
  · rw [hsame]
    exact h.released
  · rw [hsame]
    exact congrArg (· - 1) h.openCursors

/-- The last cursor of a closed provider releases the provider. -/
theorem leave_eq (h : a.InUse ownership closed (count + 1) m) :
    a.leave m = if closed ∧ count = 0 then
        (((switches m.endings).release a.janitor).run (a.less m)).2
      else a.less m := by
  have hlast : (decide (((m.charge a.statistics (·.closeCursors 1)).janitor a.slot).openCursors ≤ 1) &&
      ((a.less m).janitor a.slot).closed) = decide (closed ∧ count = 0) := by
    rw [janitor_charge, h.openCursors, h.less.closed, Bool.decide_and, Bool.and_comm]
    congr 1
    · rw [Bool.decide_eq_true]
    · exact decide_eq_decide.mpr (by omega)
  have hrun := Janitor.run_countOut (w := switches m.endings) a.janitor .begun
    (m.charge a.statistics (·.closeCursors 1))
  rw [leave, hrun]
  change (((if (decide (((m.charge a.statistics (·.closeCursors 1)).janitor a.slot).openCursors ≤ 1) &&
      ((a.less m).janitor a.slot).closed) then _ else _ : Call α Report)).run (a.less m)).2 = _
  rw [hlast]
  by_cases hall : closed ∧ count = 0
  · simp only [hall, decide_true, if_true, and_self]
    rfl
  · simp only [hall, decide_false, if_false]
    rfl

theorem leave (h : a.InUse ownership closed (count + 1) m) (hstays : ¬ (closed ∧ count = 0)) :
    a.InUse ownership closed count (a.leave m) ∧ (a.leave m).feeds = m.feeds := by
  rw [h.leave_eq, if_neg hstays]
  exact ⟨h.less, rfl⟩

theorem leave_unclosed (h : a.InUse ownership false (count + 1) m) :
    a.InUse ownership false count (a.leave m) ∧ (a.leave m).feeds = m.feeds :=
  h.leave fun hlast => Bool.noConfusion hlast.1

theorem leave_last (h : a.InUse ownership true 1 m) {b : Buffer α}
    (hb : m.feeds.buffer? a.feed = some b) : a.Spent b (a.leave m) := by
  obtain ⟨left, hleft⟩ := h.endings
  obtain ⟨b', hb', hopen, -⟩ := h.buffer
  obtain rfl : b = b' := Option.some.inj (hb.symm.trans hb')
  have hless := h.less
  have hfeeds := release_feeds (m := a.less m) hb hopen hless.sourced (left + 1) hless.closed
    hless.released
  rw [hless.closes, Nat.zero_add] at hfeeds
  have hrun := h.leave_eq
  rw [if_pos ⟨rfl, rfl⟩, hleft] at hrun
  rw [← hrun] at hfeeds
  refine ⟨?_, hfeeds.1, hfeeds.2⟩
  -- flags are never cleared, so the provider stays closed
  have hadvances := ((suffice_switches m.endings).countOut a.janitor .begun
    (m.charge a.statistics (·.closeCursors 1)) (pending_le_endings _)).1
  exact (hadvances.janitor a.slot).closed h.closed

end InUse

theorem closeDelegate_apart (w : Switches α) (m : Store α) :
    ((a.janitor.closeDelegate w).run m).2.feeds =
        (if m.baseClosed a.base then m.feeds else m.feeds.note (.providerClosed a.id)).note
          (.managedProviderClosed a.id) ∧
      ((a.janitor.closeDelegate w).run m).2.janitors =
        (m.change a.slot fun t => { t with closings := t.closings + 1 }).janitors := by
  have hbase : ∀ m : Store α, ∃ m' : Store α, (a.janitor.delegate.close w none).run m = (.ok (), m') ∧
      m'.feeds = (if m.baseClosed a.base then m.feeds else m.feeds.note (.providerClosed a.id)) ∧
      m'.janitors = m.janitors := by
    intro m
    have hdelegate : a.janitor.delegate = .base a.base a.id a.feed := rfl
    rw [hdelegate, Provider.close_base, Call.run_bind, Call.run_get]
    dsimp only
    cases m.baseClosed a.base with
    | true => exact ⟨m, rfl, rfl, rfl⟩
    | false => exact ⟨_, rfl, rfl, rfl⟩
  obtain ⟨m', hm', hfeeds, hjanitors⟩ :=
    hbase (m.change a.slot fun t => { t with closings := t.closings + 1 })
  have hrun : ((a.janitor.closeDelegate w).run m).2 =
      ((note (.managedProviderClosed a.janitor.id)).run (m'.charge a.statistics (·.closeProvider))).2 := by
    simp only [Janitor.closeDelegate_eq, Call.run_bind, run_onJanitor, slot_janitor, hm']
    rfl
  rw [hrun]
  exact ⟨congrArg (Feeds.note (.managedProviderClosed a.id)) hfeeds, hjanitors⟩

theorem run_closeDelegate (hslot : a.slot < m.janitors.size) (w : Switches α) :
    ∃ report m', (a.janitor.closeDelegate w).run (m.change a.slot fun t => { t with closed := true }) =
        (report, m') ∧
      m'.feeds = (if m.baseClosed a.base then m.feeds else m.feeds.note (.providerClosed a.id)).note
        (.managedProviderClosed a.id) ∧
      m'.janitors.size = m.janitors.size ∧
      m'.janitor a.slot =
        { m.janitor a.slot with closed := true, closings := (m.janitor a.slot).closings + 1 } := by
  obtain ⟨hfeeds, hjanitors⟩ :=
    closeDelegate_apart (a := a) w (m.change a.slot fun t => { t with closed := true })
  rcases hrun : (a.janitor.closeDelegate w).run (m.change a.slot fun t => { t with closed := true })
    with ⟨report, m'⟩
  rw [hrun] at hfeeds hjanitors
  refine ⟨report, m', rfl, hfeeds, ?_, ?_⟩
  · rw [hjanitors, size_change, size_change]
  · rw [Store.janitor, hjanitors, change_change]
    exact janitor_change_self hslot

namespace InUse

variable {b : Buffer α}

theorem close_eq (h : a.InUse ownership false count m) {left : Nat} (hleft : m.endings = left + 3) :
    ∃ m', a.InUse ownership true count m' ∧ m'.feeds.cells = m.feeds.cells ∧
      (((switches m.endings).close a.janitor).run m).2 =
        if count = 0 then (((switches (left + 2)).release a.janitor).run m').2 else m' := by
  obtain ⟨report, m', hdelegate, hfeeds, -, hjanitor⟩ := run_closeDelegate h.slot_lt (switches (left + 2))
  have hcells : m'.feeds.cells = m.feeds.cells := by
    rw [hfeeds]
    split
    · rfl
    · rfl
  have hcount : (m'.janitor a.slot).openCursors = count := by
    rw [hjanitor]
    exact h.openCursors
  refine ⟨m', ⟨?_, ?_, hcount, ?_⟩, hcells, ?_⟩
  · rw [hjanitor]
  · rw [hjanitor]
    exact h.released
  · rw [Feeds.terms, hcells]
    exact h.terms
  · rw [hleft, switches]
    simp only [Janitor.close, Call.run_bind, Call.run_get, slot_janitor, h.closed, Bool.false_eq_true,
      if_false, run_onJanitor, hdelegate, hcount]
    split
    · rfl
    · rfl

theorem close (h : a.InUse ownership false count m) (hstays : count ≠ 0) :
    a.InUse ownership true count (((switches m.endings).close a.janitor).run m).2 ∧
      (((switches m.endings).close a.janitor).run m).2.feeds.cells = m.feeds.cells := by
  obtain ⟨left, hleft⟩ := h.endings
  obtain ⟨m', hm', hcells, hrun⟩ := h.close_eq hleft
  rw [hrun, if_neg hstays]
  exact ⟨hm', hcells⟩

theorem close_idle (h : a.InUse ownership false 0 m) (hb : m.feeds.buffer? a.feed = some b) :
    a.Spent b (((switches m.endings).close a.janitor).run m).2 := by
  obtain ⟨left, hleft⟩ := h.endings
  obtain ⟨b', hb', hopen, -⟩ := h.buffer
  obtain rfl : b = b' := Option.some.inj (hb.symm.trans hb')
  obtain ⟨m', hm', hcells, hrun⟩ := h.close_eq hleft
  have hbuffer : m'.feeds.buffer? a.feed = some b := by
    rw [Feeds.buffer?, hcells]
    exact hb
  have hfeeds := release_feeds hbuffer hopen hm'.sourced left hm'.closed hm'.released
  rw [hm'.closes, Nat.zero_add] at hfeeds
  rw [if_pos rfl] at hrun
  rw [← hrun] at hfeeds
  exact ⟨(suffice_switches m.endings).closed a.janitor m (pending_le_endings m), hfeeds.1, hfeeds.2⟩

end InUse

end Host
end Replay
