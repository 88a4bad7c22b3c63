import Replay.Proofs.Hosting.CursorOps
import Replay.Proofs.Hosting.Unmanaged

/-!
The events of a managed provider: its close when it closes, and its release with the number of cursors
open at that time. The events of the buffer stay correct through both.
-/
namespace Replay

open Store

variable {α : Type}

namespace Host

variable {a : Host} {source : Source α} {config : Config} {events : List Event} {m m' : Store α}
  {outstanding faults : Nat} {was : Bool} {c d : Cursor}

/-- The events of a provider in the state `t`. -/
def ends (a : Host) (t : JanitorState) (outstanding faults : Nat) : List Event :=
  (if t.closed then [.managedProviderClosed a.id] else []) ++
    if t.released then [.resourcesReleased a.id outstanding faults] else []

/-- The log has the events of the buffer, and those of the provider so far. -/
structure Recorded (a : Host) (source : Source α) (config : Config) (outstanding faults : Nat)
    (m : Store α) : Prop where
  slot_lt : a.slot < m.janitors.size
  closed : (m.janitor a.slot).released → (m.janitor a.slot).closed
  records : source.Records config a.feed (a.ends (m.janitor a.slot) outstanding faults) m.feeds

/-- The same, where the provider was released before or has no cursor open. -/
def Logged (a : Host) (source : Source α) (config : Config) (was : Bool) (m : Store α) : Prop :=
  ∃ outstanding faults, a.Recorded source config outstanding faults m ∧
    ((m.janitor a.slot).released → was ∨ outstanding = 0 ∧ (m.janitor a.slot).openCursors = 0)

theorem Recorded.unreleased (h : a.Recorded source config outstanding faults m)
    (hclosed : (m.janitor a.slot).closed = false) : (m.janitor a.slot).released = false := by
  rw [← Bool.not_eq_true]
  exact fun hreleased => Bool.false_ne_true (hclosed.symm.trans (h.closed hreleased))

theorem Recorded.of_same (h : a.Recorded source config outstanding faults m)
    (hsize : m'.janitors.size = m.janitors.size)
    (hclosed : (m'.janitor a.slot).closed = (m.janitor a.slot).closed)
    (hreleased : (m'.janitor a.slot).released = (m.janitor a.slot).released)
    (hrecords : ∀ events, source.Records config a.feed events m.feeds →
      source.Records config a.feed events m'.feeds) :
    a.Recorded source config outstanding faults m' where
  slot_lt := hsize ▸ h.slot_lt
  closed := by
    rw [hclosed, hreleased]
    exact h.closed
  records := by
    rw [Host.ends, hclosed, hreleased]
    exact hrecords _ h.records

theorem Logged.of_feeds (h : a.Logged source config was m) (hjanitors : m'.janitors = m.janitors)
    (hrecords : ∀ events, source.Records config a.feed events m.feeds →
      source.Records config a.feed events m'.feeds) :
    a.Logged source config was m' := by
  obtain ⟨outstanding, faults, hrecorded, hfresh⟩ := h
  have hjanitor : m'.janitor a.slot = m.janitor a.slot := by rw [Store.janitor, hjanitors, Store.janitor]
  refine ⟨outstanding, faults, hrecorded.of_same (by rw [hjanitors]) (by rw [hjanitor]) (by rw [hjanitor])
    hrecords, ?_⟩
  rw [hjanitor]
  exact hfresh

theorem feedsJanitorsOnly_logged : Store.FeedsJanitorsOnly (a.Logged source config was) where
  aside hfeeds hjanitors h := h.of_feeds hjanitors fun events hlogged => by rwa [hfeeds]
  note hbuffer hprovider h := h.of_feeds rfl fun events hlogged => hlogged.note hbuffer hprovider

theorem bufferStable_logged (hsource : source.cursor? = none) (hvalid : config.validate = .ok ()) :
    Store.BufferStable a.feed (a.Logged source config was) where
  toFeedsJanitorsOnly := feedsJanitorsOnly_logged
  lt_size := fun ⟨_, _, hrecorded, _⟩ => hrecorded.records.lt_size
  asked h hs := h.of_feeds rfl fun _ hlogged => hs _ (Source.askInvariant_records hsource hvalid) hlogged
  closeBuffer := by
    rintro left m ⟨outstanding, faults, hrecorded, hfresh⟩
    obtain ⟨s', hs', hrun⟩ := hrecorded.records.closeBuffer hsource hvalid left
    rw [hrun]
    exact ⟨outstanding, faults, ⟨hrecorded.slot_lt, hrecorded.closed, hs'⟩, hfresh⟩
  retire := by
    rintro r m ⟨outstanding, faults, hrecorded, hfresh⟩
    have hclosed := janitor_retire r m a.slot (g := JanitorState.closed) fun _ _ => rfl
    have hreleased := janitor_retire r m a.slot (g := JanitorState.released) fun _ _ => rfl
    have hcount := janitor_retire r m a.slot (g := JanitorState.openCursors) fun _ _ => rfl
    refine ⟨outstanding, faults, hrecorded.of_same Array.size_mapIdx hclosed hreleased fun _ h => h, ?_⟩
    rw [hreleased, hcount]
    exact hfresh

theorem Logged.change (h : a.Logged source config was m) {f : JanitorState → JanitorState}
    (hclosed : ∀ t, (f t).closed = t.closed) (hreleased : ∀ t, (f t).released = t.released)
    (hcount : (m.janitor a.slot).released → (m.janitor a.slot).openCursors = 0 →
      (f (m.janitor a.slot)).openCursors = 0) : a.Logged source config was (m.change a.slot f) := by
  obtain ⟨outstanding, faults, hrecorded, hfresh⟩ := h
  have hself := janitor_change_self (f := f) hrecorded.slot_lt
  refine ⟨outstanding, faults, hrecorded.of_same size_change ?_ ?_ fun _ h => h, ?_⟩
  · rw [hself, hclosed]
  · rw [hself, hreleased]
  · rw [hself, hreleased]
    exact fun hr => (hfresh hr).imp_right fun hnone => ⟨hnone.1, hcount hr hnone.2⟩

section ending

theorem records_closeDelegate (hslot : a.slot < m.janitors.size)
    (h : source.Records config a.feed events m.feeds) (w : Switches α) :
    ∃ report m', (a.janitor.closeDelegate w).run (m.change a.slot fun t => { t with closed := true }) =
        (report, m') ∧
      source.Records config a.feed (events ++ [.managedProviderClosed a.id]) m'.feeds ∧
      m'.janitors.size = m.janitors.size ∧
      m'.janitor a.slot =
        { m.janitor a.slot with closed := true, closings := (m.janitor a.slot).closings + 1 } := by
  obtain ⟨report, m', hrun, hfeeds, hsize, hjanitor⟩ := run_closeDelegate hslot w
  refine ⟨report, m', hrun, ?_, hsize, hjanitor⟩
  rw [hfeeds]
  refine Source.Records.noteEnd ?_ rfl
  split
  · exact h
  · exact h.note rfl rfl

theorem records_releaseDelegate (hsource : source.cursor? = none) (hvalid : config.validate = .ok ())
    (h : source.Records config a.feed events m.feeds) (left : Nat) (report : Report) :
    ∃ faults, source.Records config a.feed
        (events ++ [.resourcesReleased a.id (m.janitor a.slot).openCursors faults])
        ((a.janitor.releaseDelegate (switches (left + 1)) report).run m).2.feeds ∧
      ((a.janitor.releaseDelegate (switches (left + 1)) report).run m).2.janitors =
        (m.change a.slot fun t => { t with releasings := t.releasings + 1 }).janitors := by
  obtain ⟨m₁, hm₁⟩ : ∃ m₁, m₁ = m.change a.slot fun t => { t with releasings := t.releasings + 1 } :=
    ⟨_, rfl⟩
  have hP : Store.FeedsJanitorsOnly fun m' : Store α =>
      source.Records config a.feed events m'.feeds ∧ m'.janitors = m₁.janitors :=
    ⟨fun hfeeds hjanitors h => ⟨hfeeds ▸ h.1, hjanitors.trans h.2⟩,
      fun hbuffer hprovider h => ⟨h.1.note hbuffer hprovider, h.2⟩⟩
  have hfeeds : m₁.feeds = m.feeds := by rw [hm₁]; rfl
  obtain ⟨s', hs', hclose⟩ := Source.Records.closeBuffer (m := ((closeBase a.base).run m₁).2) hsource hvalid
    (hfeeds ▸ h : source.Records config a.feed events m₁.feeds) left
  have hreleased : ((a.janitor.delegate.release (switches (left + 1)) none).run m₁).2 =
      { ((closeBase a.base).run m₁).2 with feeds := s' } := hclose
  rcases hrelease : (a.janitor.delegate.release (switches (left + 1)) none).run m₁ with ⟨outcome, m₂⟩
  rw [hrelease] at hreleased
  have hkept : source.Records config a.feed events m₂.feeds ∧ m₂.janitors = m₁.janitors := by
    rw [show m₂ = _ from hreleased]
    exact ⟨hs', rfl⟩
  have hrecord := hP.record report a.id .releaseProvider outcome m₂ hkept
  rcases hrecorded : (report.record a.id .releaseProvider outcome).run m₂ with ⟨report', m₃⟩
  rw [hrecorded] at hrecord
  have hcount : (m₃.janitor a.slot).openCursors = (m.janitor a.slot).openCursors := by
    rw [Store.janitor, hrecord.2, hm₁]
    exact janitor_change_congr (f := fun t => { t with releasings := t.releasings + 1 }) fun _ => rfl
  have hrun : ((a.janitor.releaseDelegate (switches (left + 1)) report).run m).2 =
      ((note (.resourcesReleased a.id (m₃.janitor a.slot).openCursors report'.faults.length)).run
        (m₃.charge a.statistics (·.closeCursors (m₃.janitor a.slot).openCursors))).2 := by
    simp only [Janitor.releaseDelegate_eq, Call.run_bind, run_onJanitor, slot_janitor, ← hm₁, hrelease]
    rw [show a.janitor.id = a.id from rfl, hrecorded]
    rfl
  rw [hrun, hcount]
  refine ⟨report'.faults.length, hrecord.1.noteEnd rfl, ?_⟩
  rw [← hm₁]
  exact hrecord.2

theorem records_closed (hslot : a.slot < m.janitors.size) (hreleased : (m.janitor a.slot).released)
    (h : source.Records config a.feed (if (m.janitor a.slot).closed then [.managedProviderClosed
      a.id] else [])
      m.feeds) (left : Nat) :
    ∃ report m', ((switches (left + 1)).close a.janitor).run m = (report, m') ∧
      source.Records config a.feed [.managedProviderClosed a.id] m'.feeds ∧
      m'.janitors.size = m.janitors.size ∧ (m'.janitor a.slot).closed ∧ (m'.janitor a.slot).released ∧
      (m'.janitor a.slot).openCursors = (m.janitor a.slot).openCursors := by
  cases hclosed : (m.janitor a.slot).closed with
  | true =>
    rw [hclosed] at h
    exact ⟨_, m, run_close_switches (left + 1) hclosed, h, rfl, hclosed, hreleased, rfl⟩
  | false =>
    rw [hclosed] at h
    obtain ⟨report, m', hdelegate, hrecords, hsize, hjanitor⟩ :=
      records_closeDelegate hslot h (switches left)
    have hskipped : ((switches left).release a.janitor).run m' = (.skipped, m') :=
      run_release_switches left (by rw [slot_janitor, hjanitor]; exact hreleased)
    obtain ⟨report', hrun⟩ : ∃ report', ((switches (left + 1)).close a.janitor).run m = (report', m') := by
      rw [switches]
      dsimp only
      rw [Janitor.run_close_of_open hclosed]
      simp only [Call.run_bind, Call.run_get, slot_janitor, hdelegate]
      by_cases hzero : (m'.janitor a.slot).openCursors = 0
      · simp only [hzero, if_true, Call.run_bind, hskipped]
        exact ⟨_, rfl⟩
      · simp only [hzero, if_false]
        exact ⟨_, rfl⟩
    refine ⟨report', m', hrun, hrecords, hsize, ?_, ?_, ?_⟩
    · rw [hjanitor]
    · rw [hjanitor]
      exact hreleased
    · rw [hjanitor]

variable (hsource : source.cursor? = none) (hvalid : config.validate = .ok ())

include hsource hvalid

theorem Recorded.release (h : a.Recorded source config outstanding faults m)
    (hopen : (m.janitor a.slot).released = false) (left : Nat) :
    ∃ faults m', (((switches (left + 2)).release a.janitor).run m).2 = m' ∧
      a.Recorded source config (m.janitor a.slot).openCursors faults m' ∧
      (m'.janitor a.slot).openCursors = (m.janitor a.slot).openCursors := by
  obtain ⟨m₁, hm₁⟩ : ∃ m₁, m₁ = m.change a.slot fun t => { t with released := true } := ⟨_, rfl⟩
  have hself : m₁.janitor a.slot = { m.janitor a.slot with released := true } := by
    rw [hm₁]
    exact janitor_change_self h.slot_lt
  have hsize : m₁.janitors.size = m.janitors.size := by rw [hm₁, size_change]
  have hrecords : source.Records config a.feed
      (if (m₁.janitor a.slot).closed then [.managedProviderClosed a.id] else []) m₁.feeds := by
    have hends := h.records
    rw [Host.ends, hopen, if_neg Bool.false_ne_true, List.append_nil] at hends
    rw [hself, show m₁.feeds = m.feeds by rw [hm₁]; rfl]
    exact hends
  obtain ⟨report, m₂, hclose, hrecords', hsize', hclosed', hreleased', hcount'⟩ :=
    records_closed (hsize.symm ▸ h.slot_lt) (by rw [hself]) hrecords left
  obtain ⟨faults', hended, hjanitors⟩ :=
    records_releaseDelegate hsource hvalid hrecords' left (Report.begun.merge report)
  have hjanitor : ∀ {β : Type} (g : JanitorState → β),
      (∀ t : JanitorState, g { t with releasings := t.releasings + 1 } = g t) →
      g (((a.janitor.releaseDelegate (switches (left + 1)) (Report.begun.merge report)).run m₂).2.janitor
        a.slot) = g (m₂.janitor a.slot) := by
    intro β g hg
    rw [Store.janitor, hjanitors]
    exact janitor_change_congr (f := fun t => { t with releasings := t.releasings + 1 }) hg
  have hrun : (((switches (left + 2)).release a.janitor).run m).2 =
      ((a.janitor.releaseDelegate (switches (left + 1)) (Report.begun.merge report)).run m₂).2 := by
    rw [switches]
    dsimp only
    rw [Janitor.run_release_of_unreleased hopen]
    simp only [Call.run_bind, slot_janitor, ← hm₁, hclose]
  have hcounted : (m₂.janitor a.slot).openCursors = (m.janitor a.slot).openCursors := by
    rw [hcount', hself]
  refine ⟨faults', _, hrun, ⟨?_, fun _ => ?_, ?_⟩, ?_⟩
  · rw [hjanitors, size_change, hsize', hsize]
    exact h.slot_lt
  · rw [hjanitor JanitorState.closed fun _ => rfl]
    exact hclosed'
  · rw [Host.ends, hjanitor JanitorState.closed fun _ => rfl, hjanitor JanitorState.released fun _ => rfl,
      hclosed', hreleased', ← hcounted]
    exact hended
  · rw [hjanitor JanitorState.openCursors fun _ => rfl, hcounted]

theorem Logged.release (h : a.Logged source config was m) (hidle : (m.janitor a.slot).openCursors = 0)
    (left : Nat) : a.Logged source config was (((switches (left + 2)).release a.janitor).run m).2 := by
  cases hopen : (m.janitor a.slot).released with
  | true =>
    rw [run_release_switches (left + 2) hopen]
    exact h
  | false =>
    obtain ⟨outstanding, faults, hrecorded, -⟩ := h
    obtain ⟨faults', m', hrun, hrecorded', hcount⟩ := hrecorded.release hsource hvalid hopen left
    rw [hrun]
    exact ⟨_, faults', hrecorded', fun _ => .inr ⟨hidle, hcount.trans hidle⟩⟩

theorem Logged.close (h : a.Logged source config was m) (left : Nat) :
    a.Logged source config was (((switches (left + 3)).close a.janitor).run m).2 := by
  cases hclosed : (m.janitor a.slot).closed with
  | true =>
    rw [run_close_switches (left + 3) hclosed]
    exact h
  | false =>
    obtain ⟨outstanding, faults, hrecorded, -⟩ := h
    have hopen := hrecorded.unreleased hclosed
    have hrecords : source.Records config a.feed [] m.feeds := by
      have hends := hrecorded.records
      rw [Host.ends, hclosed, hopen] at hends
      exact hends
    obtain ⟨report, m', hdelegate, hlogged, hsize, hjanitor⟩ :=
      records_closeDelegate hrecorded.slot_lt hrecords (switches (left + 2))
    have hnone : (m'.janitor a.slot).released = false := by
      rw [hjanitor]
      exact hopen
    have hlogged : a.Logged source config was m' := by
      refine ⟨outstanding, faults, ⟨hsize.symm ▸ hrecorded.slot_lt, fun _ => ?_, ?_⟩, fun hreleased => ?_⟩
      · rw [hjanitor]
      · rw [Host.ends, hnone, hjanitor]
        exact hlogged
      · exact absurd (hnone.symm.trans hreleased) Bool.false_ne_true
    rw [switches]
    dsimp only
    rw [Janitor.run_close_of_open hclosed]
    simp only [Call.run_bind, Call.run_get, slot_janitor, hdelegate]
    by_cases hidle : (m'.janitor a.slot).openCursors = 0
    · simp only [hidle, if_true]
      exact hlogged.release hsource hvalid hidle left
    · simp only [hidle, if_false]
      exact hlogged

end ending
end Host
end Replay
