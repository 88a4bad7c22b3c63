import Replay.Proofs.Buffer.EventLog
import Replay.Proofs.Sources.Progress

/-!
The log of a store with a single buffer over its own source. The events of the buffer in it are exactly
those of its history.
-/
namespace Replay

open Store

variable {α : Type} {feed : Nat}

namespace Event

/-- The events of the teardown of a managed provider. -/
def ofProvider : Event → Bool
  | managedProviderClosed _ | resourcesReleased .. => true
  | _ => false

theorem ofProvider_of_ofBuffer {e : Event} (h : e.ofBuffer) : e.ofProvider = false := by
  cases e with
  | managedProviderClosed id => cases h
  | resourcesReleased id outstanding faults => cases h
  | _ => rfl

end Event

namespace Supply

variable {t : Supply α} {k : Progress}

/-- The events of the buffer up to progress `k`. -/
def bufferEvents (t : Supply α) (k : Progress) : List Event :=
  t.start.events t.outcomes k.count ++
    if k.closed then [.bufferClosed (t.buffer k.count).consumed (t.buffer k.count).ownership] else []

theorem eventsExact_start (t : Supply α) : t.start.EventsExact [] := ⟨⟨rfl, rfl, rfl, rfl, .nil⟩, nofun⟩

theorem eventsExact_buffer {count : Nat} (hvalid : t.config.validate = .ok ())
    (h : t.start.Pulls t.outcomes count) : (t.buffer count).EventsExact (t.start.events t.outcomes count) :=
  Buffer.eventsExact_after (sound_start hvalid) t.eventsExact_start h

theorem eventsExact_kept (hvalid : t.config.validate = .ok ()) (h : t.start.Pulls t.outcomes k.count) :
    (t.kept k).EventsExact (t.bufferEvents k) := by
  have hevents := eventsExact_buffer hvalid h
  rw [kept, bufferEvents]
  split
  · exact hevents.close (sound_buffer hvalid h).opened
  · rw [List.append_nil]
    exact hevents

end Supply

namespace Source

variable {source : Source α} {config : Config} {s s' : Feeds α} {k : Progress} {ends : List Event} {e : Event}
  {m : Store α}

/-- The log has the events of the buffer, and `ends` of managed providers. -/
def Records (source : Source α) (config : Config) (feed : Nat) (ends : List Event) (s : Feeds α) : Prop :=
  ∃ k, source.Has config feed s k ∧
    s.log.toList.filter Event.ofBuffer = (source.supply config).bufferEvents k ∧
    s.log.toList.filter Event.ofProvider = ends

namespace Records

theorem lt_size (h : source.Records config feed ends s) : feed < s.cells.size := by
  obtain ⟨k, hk, -⟩ := h
  exact Feeds.lt_size_of_buffer? hk.buffer?_eq

theorem events (hvalid : config.validate = .ok ()) (h : source.Records config feed ends s) :
    ∃ b, s.buffer? feed = some b ∧ b.EventsMatch s.log.toList ∧
      b.layout = ⟨config.initial, config.increment⟩ ∧
      (b.closed = false → b.published = Array.range b.buckets.size) := by
  obtain ⟨k, hk, hevents, -⟩ := h
  refine ⟨_, hk.buffer?_eq,
    (Supply.eventsExact_kept (t := source.supply config) hvalid hk.pulls).eventsMatch hevents,
    Supply.layout_kept (t := source.supply config) hvalid hk.pulls, ?_⟩
  rw [Supply.kept]
  split
  · exact fun hopen => Bool.noConfusion hopen
  · exact fun _ => (Supply.sound_buffer (t := source.supply config) hvalid hk.pulls).listed.published

theorem ends_eq (h : source.Records config feed ends s) : s.log.toList.filter Event.ofProvider = ends := by
  obtain ⟨k, hk, hevents, hends⟩ := h
  exact hends

theorem filter_note (p : Event → Bool) (e : Event) (s : Feeds α) :
    (s.note e).log.toList.filter p = s.log.toList.filter p ++ if p e then [e] else [] := by
  rw [Feeds.note, Array.toList_push, List.filter_append, List.filter_singleton, Bool.cond_eq_ite]

theorem note (h : source.Records config feed ends s) (hbuffer : e.ofBuffer = false)
    (hprovider : e.ofProvider = false) : source.Records config feed ends (s.note e) := by
  obtain ⟨k, hk, hevents, hends⟩ := h
  refine ⟨k, hk.of_cell rfl, ?_, ?_⟩
  · rw [filter_note, hevents, hbuffer]
    exact List.append_nil _
  · rw [filter_note, hends, hprovider]
    exact List.append_nil _

theorem noteEnd (h : source.Records config feed ends s) (he : e.ofProvider) :
    source.Records config feed (ends ++ [e]) (s.note e) := by
  obtain ⟨k, hk, hevents, hends⟩ := h
  have hbuffer : e.ofBuffer = false := by
    rw [← Bool.not_eq_true]
    exact fun hbuffer => Bool.false_ne_true ((Event.ofProvider_of_ofBuffer hbuffer).symm.trans he)
  refine ⟨k, hk.of_cell rfl, ?_, ?_⟩
  · rw [filter_note, hevents, hbuffer]
    exact List.append_nil _
  · rw [filter_note, hends, if_pos he]

end Records

theorem Has.records_of_asked {count more : Nat} {new : List Event} (hvalid : config.validate = .ok ())
    (hevents : s.log.toList.filter Event.ofBuffer = (source.supply config).bufferEvents ⟨false, count⟩)
    (hends : s.log.toList.filter Event.ofProvider = ends) (hk : source.Has config feed s' ⟨false, more⟩)
    (hlog : s'.log.toList = s.log.toList ++ new)
    (hnew : (source.supply config).start.events (source.supply config).outcomes more =
      (source.supply config).start.events (source.supply config).outcomes count ++ new) :
    source.Records config feed ends s' := by
  have hown : ∀ e ∈ new, e.ofBuffer := fun e he =>
    (Supply.eventsExact_buffer (t := source.supply config) hvalid hk.pulls).own e
      (hnew ▸ List.mem_append_right _ he)
  refine ⟨_, hk, ?_, ?_⟩
  · rw [hlog, List.filter_append, hevents, List.filter_eq_self.mpr hown, Supply.bufferEvents,
      Supply.bufferEvents, hnew]
    simp only [Bool.false_eq_true, if_false, List.append_nil]
  · have hnone : new.filter Event.ofProvider = [] :=
      List.filter_eq_nil_iff.mpr fun e he =>
        Bool.eq_false_iff.mp (Event.ofProvider_of_ofBuffer (hown e he))
    rw [hlog, List.filter_append, hends, hnone, List.append_nil]

theorem askInvariant_records (hsource : source.cursor? = none) (hvalid : config.validate = .ok ()) :
    Feeds.AskInvariant feed (source.Records config feed ends) where
  hasNext {s} depth offset h := by
    obtain ⟨⟨closed, count⟩, hk, hevents, hends⟩ := h
    cases closed with
    | true =>
      have hrefusal := refusal_kept (k := ⟨true, count⟩) (source.supply config) rfl
      rw [Supply.onBuffer_idle hk.buffer?_eq (Buffer.hasNext_of_refusal hrefusal offset)]
      exact ⟨_, hk, hevents, hends⟩
    | false =>
      obtain ⟨more, r, s', hs', -, ⟨new, hlog, hnew⟩, hnext, -⟩ :=
        hk.asked hvalid (plays_pull hsource feed depth) offset
      rw [hnext]
      exact hs'.records_of_asked hvalid hevents hends hlog hnew
  bucketFor {s} depth offset h := by
    obtain ⟨⟨closed, count⟩, hk, hevents, hends⟩ := h
    cases closed with
    | true =>
      have hrefusal := refusal_kept (k := ⟨true, count⟩) (source.supply config) rfl
      rw [Supply.onBuffer_idle hk.buffer?_eq (Buffer.bucketFor_of_refusal hrefusal offset)]
      exact ⟨_, hk, hevents, hends⟩
    | false =>
      obtain ⟨more, r, s', hs', -, ⟨new, hlog, hnew⟩, -, hbucket, -⟩ :=
        hk.asked hvalid (plays_pull hsource feed depth) offset
      rw [hbucket]
      exact hs'.records_of_asked hvalid hevents hends hlog hnew

section closing

theorem run_closeSource (hsource : source.cursor? = none) (hs : m.feeds.source? feed = some source)
    (w : Switches α) : ∃ source' s', source'.cursor? = none ∧ s'.source? feed = some source' ∧
      s'.log = m.feeds.log ∧ ((Store.closeSource w feed).run m).2 = { m with feeds := s' } := by
  obtain ⟨c, hc, hcell⟩ := Option.bind_eq_some_iff.mp hs
  have hset : ∀ source' : Source α, ((m.feeds.count feed fun t => { t with closes := t.closes + 1 }).setSource
      feed (some source')).source? feed = some source' := fun source' =>
    Feeds.source?_eq (Feeds.cell_modify (Feeds.cell_modify hc _) _)
  rw [Store.closeSource, Call.run_bind, Call.run_get]
  dsimp only
  rw [hs]
  cases source with
  | iterator it => exact ⟨_, _, rfl, hset _, rfl, rfl⟩
  | script outcomes pulled hint closing => exact ⟨_, _, rfl, hset _, rfl, rfl⟩
  | bytes source item => exact ⟨_, _, rfl, hset _, rfl, rfl⟩
  | chain c => cases hsource

theorem run_dropSource (hsource : source.cursor? = none) (hs : m.feeds.source? feed = some source)
    (w : Switches α) :
    ((Store.dropSource w feed).run m).2 = { m with feeds := m.feeds.setSource feed none } := by
  rw [Store.dropSource, Call.run_bind, Call.run_get]
  dsimp only
  rw [hs]
  cases source with
  | chain c => cases hsource
  | _ => rfl

theorem run_closeBuffer {b : Buffer α} (hsource : source.cursor? = none)
    (hs : m.feeds.source? feed = some source) (hb : m.feeds.buffer? feed = some b) (hopen : b.closed = false)
    (w : Switches α) : ∃ s', s'.log = m.feeds.log.push (.bufferClosed b.consumed b.ownership) ∧
      ((Store.closeBuffer w feed).run m).2 = { m with feeds := s' } := by
  obtain ⟨c, hc, hcell⟩ := Option.bind_eq_some_iff.mp hs
  obtain ⟨s₁, hs₁⟩ : ∃ s₁, s₁ =
      (m.feeds.setBuffer feed (some b.close)).note (.bufferClosed b.consumed b.ownership) := ⟨_, rfl⟩
  have hlog : s₁.log = m.feeds.log.push (.bufferClosed b.consumed b.ownership) := by
    rw [hs₁]
    rfl
  have hsource₁ : s₁.source? feed = some source := by
    rw [hs₁]
    exact (Feeds.source?_eq (Feeds.cell_modify hc _)).trans hcell
  rw [← hlog, Store.closeBuffer, Call.run_bind, Call.run_get]
  dsimp only
  rw [hb]
  simp only [hopen, Bool.false_eq_true, if_false, Call.run_bind, Call.run_modify, Store.note, ← hs₁]
  cases b.ownership with
  | owned =>
    obtain ⟨source', s₂, hsource₂, hs₂, hlog₂, hclose⟩ :=
      run_closeSource (m := { m with feeds := s₁ }) hsource hsource₁ w
    have hdrop := run_dropSource (m := { m with feeds := s₂ }) hsource₂ hs₂ w
    exact ⟨s₂.setSource feed none, hlog₂,
      (congrArg (fun m => ((Store.dropSource w feed).run m).2) hclose).trans hdrop⟩
  | borrowed =>
    exact ⟨s₁.setSource feed none, rfl, run_dropSource (m := { m with feeds := s₁ }) hsource hsource₁ w⟩

theorem Records.closeBuffer (hsource : source.cursor? = none) (hvalid : config.validate = .ok ())
    (h : source.Records config feed ends m.feeds) (left : Nat) :
    ∃ s', source.Records config feed ends s' ∧
      ((Store.closeBuffer (switches left : Switches α) feed).run m).2 = { m with feeds := s' } := by
  obtain ⟨⟨closed, count⟩, hk, hevents, hends⟩ := h
  have hb := hk.buffer?_eq
  cases closed with
  | true =>
    refine ⟨m.feeds, ⟨_, hk, hevents, hends⟩, ?_⟩
    have hclosed : ((source.supply config).kept ⟨true, count⟩).closed := rfl
    simp only [Store.closeBuffer, Call.run_bind, Call.run_get, hb, hclosed, if_true]
    rfl
  | false =>
    obtain ⟨tally, hcell⟩ := hk.cell
    have hopen : ((source.supply config).kept ⟨false, count⟩).closed = false :=
      (Supply.sound_buffer (t := source.supply config) hvalid hk.pulls).opened
    obtain ⟨s', hlog, hrun⟩ := run_closeBuffer (cursor?_ahead hsource count)
      (Feeds.source?_eq hcell) hb hopen (switches left)
    have hcell' := (carries_freezes (α := α) feed left).cell_closeBuffer hcell rfl hopen rfl
    rw [hrun] at hcell'
    refine ⟨s', ⟨⟨true, count⟩, ⟨hk.pulls, _, hcell'⟩, ?_, ?_⟩, hrun⟩
    · rw [hlog, Array.toList_push, List.filter_append, hevents, Supply.bufferEvents, Supply.bufferEvents]
      simp only [Bool.false_eq_true, if_false, List.append_nil]
      rfl
    · rw [hlog, Array.toList_push, List.filter_append, hends]
      exact List.append_nil _

end closing
end Source
end Replay
