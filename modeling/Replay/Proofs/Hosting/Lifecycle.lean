import Replay.Proofs.Hosting.Logging
import Replay.Proofs.Janitor.Attempts

/-!
The log of a buffer and of the managed provider over it. Whatever is done with the two and with any
cursors, each bucket allocation, exhaustion, failure and close, and the teardown of the provider, is
logged exactly once if it has happened, and in order.
-/
namespace Replay

open Store

variable {α β : Type}

namespace Host

variable {a : Host} {source : Source α} {config : Config} {m m' : Store α} {outstanding faults : Nat}
  {was : Bool} {c : Cursor}

section ops

/-- Operations on the provider and on its cursors. -/
def Manages (a : Host) : StoreOp α → Prop
  | .openCursor p | .endProvider p _ => ∃ hook, p = a.hooked hook
  | .close j | .release j => j = a.janitor
  | .releaseCursor j c => j = a.janitor ∧ a.Owns c
  | .cursorOp c _ | .drop c => a.Owns c
  | _ => False

theorem Recorded.endings (h : a.Recorded source config outstanding faults m) :
    ∃ left, m.endings = left + 3 := endings_of_lt h.slot_lt h.records.lt_size

theorem under_withSwitches {f : Switches α → Call α β}
    (hf : ∀ left, (f (switches (left + 3))).Under (a.Logged source config was)) :
    (withSwitches f).Under (a.Logged source config was) := by
  intro m h
  have ⟨_, _, hrecorded, _⟩ := h
  obtain ⟨left, hleft⟩ := hrecorded.endings
  rw [Call.run_withSwitches, hleft]
  exact hf left m h

/-- The log is correct, and if the provider was released only now, it logged the cursors open at that
time. -/
def Counted (a : Host) (source : Source α) (config : Config) (was : Bool) (m : Store α) : Prop :=
  ∃ outstanding faults, a.Recorded source config outstanding faults m ∧
    ((m.janitor a.slot).released → was ∨ outstanding = (m.janitor a.slot).openCursors)

theorem Logged.counted (h : a.Logged source config was m) : a.Counted source config was m := by
  obtain ⟨outstanding, faults, hrecorded, hfresh⟩ := h
  exact ⟨outstanding, faults, hrecorded, fun hreleased =>
    (hfresh hreleased).imp_right fun hnone => hnone.1.trans hnone.2.symm⟩

theorem Recorded.logged (h : a.Recorded source config outstanding faults m) :
    a.Logged source config (m.janitor a.slot).released m := ⟨outstanding, faults, h, .inl⟩

variable (hsource : source.cursor? = none) (hvalid : config.validate = .ok ())

include hsource hvalid

theorem under_cursorOp (hc : a.Owns c) (t : CursorOp) : (t.perform c).Under (a.Logged source config was) := by
  have hP : Store.BufferStable a.feed (a.Logged source config was) := bufferStable_logged hsource hvalid
  rcases t.reads_or with ht | ⟨position, rfl⟩ | rfl | rfl
  · exact fun m h => hP.reads ht hc.feed h
  · exact BufferStable.seek position c
  · exact .bind (under_withSwitches fun left => under_release hsource hvalid (left + 1) hc) fun _ => .pure _
  · exact .bind (under_withSwitches fun left => under_close hsource hvalid (left + 1) hc) fun _ => .pure _

theorem Recorded.demand (h : a.Recorded source config outstanding faults m) {left : Nat} :
    a.Counted source config (m.janitor a.slot).released
      (((switches (left + 3)).demand a.janitor).run m).2 := by
  obtain ⟨m₁, hm₁⟩ : ∃ m₁, m₁ = m.change a.slot fun t => { t with demands := t.demands + 1 } := ⟨_, rfl⟩
  have hself : m₁.janitor a.slot = { m.janitor a.slot with demands := (m.janitor a.slot).demands + 1 } := by
    rw [hm₁]
    exact janitor_change_self h.slot_lt
  have hrecorded : a.Recorded source config outstanding faults m₁ := by
    refine h.of_same ?_ (by rw [hself]) (by rw [hself]) fun events hlogged => ?_
    · rw [hm₁, size_change]
    · rw [hm₁]
      exact hlogged
  have hrun : (((switches (left + 3)).demand a.janitor).run m).2 =
      (((switches (left + 3)).release a.janitor).run m₁).2 := by
    rw [Switches.demand, Call.run_bind, run_onJanitor, hm₁]
    rfl
  rw [hrun]
  cases hopen : (m.janitor a.slot).released with
  | true =>
    rw [run_release_switches (left + 3) (by rw [slot_janitor, hself]; exact hopen)]
    exact ⟨outstanding, faults, hrecorded, fun _ => .inl rfl⟩
  | false =>
    obtain ⟨faults', m', hrelease, hrecorded', hcount⟩ :=
      hrecorded.release hsource hvalid (by rw [hself]; exact hopen) (left + 1)
    rw [hrelease]
    exact ⟨_, faults', hrecorded', fun _ => .inr hcount.symm⟩

theorem Recorded.perform (h : a.Recorded source config outstanding faults m) (hone : m.feeds.cells.size = 1)
    {d : StoreOp α} (hd : d.Unmanaged a.feed ∨ a.Manages d) :
    a.Counted source config (m.janitor a.slot).released (d.perform m) := by
  have hlogged := h.logged
  obtain ⟨left, hleft⟩ := h.endings
  rcases hd with hd | hd
  · exact (hd.perform (bufferStable_logged hsource hvalid) hone hlogged).counted
  · cases d with
    | openCursor p =>
      obtain ⟨hook, rfl⟩ := hd
      exact (under_withSwitches (fun left => under_openCursor hsource hvalid (left + 1) hook) m
        hlogged).counted
    | endProvider p ending =>
      obtain ⟨hook, rfl⟩ := hd
      cases ending with
      | close =>
        exact (under_withSwitches (f := fun w => (a.hooked hook).close w none)
          (fun left _ h => h.close hsource hvalid left) m hlogged).counted
      | release =>
        rw [StoreOp.perform, afterWith_eq, hleft]
        exact h.demand hsource hvalid
    | close j =>
      obtain rfl := hd
      exact (under_withSwitches (fun left m h => h.close hsource hvalid left) m hlogged).counted
    | release j =>
      obtain rfl := hd
      rw [StoreOp.perform, afterWith_eq, hleft]
      exact h.demand hsource hvalid
    | releaseCursor j c =>
      obtain ⟨rfl, hc⟩ := hd
      exact (under_withSwitches (fun left => under_releaseCursor hsource hvalid (left + 1)
        (under_release hsource hvalid (left + 1) hc)) m hlogged).counted
    | cursorOp c t => exact (under_cursorOp hsource hvalid hd t m hlogged).counted
    | drop c =>
      exact (under_withSwitches (fun left => under_dropLayers hsource hvalid (left + 1) c.depth hd) m
        hlogged).counted
    | _ => exact hd.elim

end ops

section running

/-- The events of the buffer and of the provider in the log. -/
structure Replays (a : Host) (config : Config) (m : Store α) : Prop where
  buffer : ∃ b, m.feeds.buffer? a.feed = some b ∧ b.EventsMatch m.feeds.log.toList ∧
    b.layout = ⟨config.initial, config.increment⟩ ∧
    (b.closed = false → b.published = Array.range b.buckets.size)
  closed : (m.janitor a.slot).released → (m.janitor a.slot).closed
  provider : ∃ outstanding faults,
    m.feeds.log.toList.filter Event.ofProvider = a.ends (m.janitor a.slot) outstanding faults

theorem Recorded.replays (hvalid : config.validate = .ok ())
    (h : a.Recorded source config outstanding faults m) : a.Replays config m :=
  ⟨h.records.events hvalid, h.closed, outstanding, faults, h.records.ends_eq⟩

theorem length_ends_le (a : Host) (t : JanitorState) (outstanding faults : Nat) :
    (a.ends t outstanding faults).length ≤ 2 := by
  have hone : ∀ (b : Bool) (e : Event), (if b then [e] else []).length ≤ 1 := by
    intro b e
    cases b
    · exact Nat.zero_le 1
    · exact le_rfl
  rw [ends, List.length_append]
  exact Nat.add_le_add (hone _ _) (hone _ _)

theorem Recorded.silent {new : List Event} {outstanding' faults' : Nat}
    (h : a.Recorded source config outstanding faults m) (hreleased : (m.janitor a.slot).released)
    (h' : a.Recorded source config outstanding' faults' m')
    (hlog : m'.feeds.log.toList = m.feeds.log.toList ++ new) : new.filter Event.ofProvider = [] := by
  have hends := h'.records.ends_eq
  rw [hlog, List.filter_append, h.records.ends_eq] at hends
  -- the provider logs two events at most, and both are in the log
  have hmost := a.length_ends_le (m'.janitor a.slot) outstanding' faults'
  rw [← hends, List.length_append, ends, h.closed hreleased, hreleased] at hmost
  exact List.length_eq_zero_iff.mp (Nat.le_zero.mp (Nat.le_of_add_le_add_left hmost))

theorem Counted.openCursors_eq {new : List Event} {open' faults' : Nat}
    (h : a.Recorded source config outstanding faults m)
    (h' : a.Counted source config (m.janitor a.slot).released m')
    (hlog : m'.feeds.log.toList = m.feeds.log.toList ++ new)
    (hlogged : .resourcesReleased a.id open' faults' ∈ new) : (m'.janitor a.slot).openCursors = open' := by
  obtain ⟨outstanding', faults'', hrecorded, hcount⟩ := h'
  have hmem : .resourcesReleased a.id open' faults' ∈ new.filter Event.ofProvider :=
    List.mem_filter.mpr ⟨hlogged, rfl⟩
  have hends : .resourcesReleased a.id open' faults' ∈ a.ends (m'.janitor a.slot) outstanding' faults'' := by
    rw [← hrecorded.records.ends_eq, hlog, List.filter_append]
    exact List.mem_append_right _ hmem
  rw [ends, List.mem_append] at hends
  rcases hends with hclosed | hreleased
  · split at hclosed
    · cases List.mem_singleton.mp hclosed
    · cases hclosed
  · split at hreleased
    · rename_i hr
      obtain ⟨-, rfl, -⟩ := Event.resourcesReleased.inj (List.mem_singleton.mp hreleased)
      rcases hcount hr with hwas | hcount
      · rw [h.silent hwas hrecorded hlog] at hmem
        cases hmem
      · exact hcount.symm
    · cases hreleased

/-- The only provider, over the only buffer. -/
def sole (statistics base : Nat) (id : ProviderId) : Host := ⟨0, statistics, base, id, 0⟩

/-- A buffer is created over a source, and used; then a provider manages it. -/
def course (a : Host) (source : Source α) (config : Config) (before : List (StoreOp α)) (hook : Hook)
    (after : List (StoreOp α)) : List (StoreOp α) :=
  [.addSource source, .addBuffer config a.feed] ++ before ++
    .addManaged a.statistics hook (.base a.base a.id a.feed) :: after

theorem Manages.size_perform {d : StoreOp α} (hd : a.Manages d) (m : Store α) :
    (d.perform m).feeds.cells.size = m.feeds.cells.size :=
  StoreOp.size_perform m fun source hsource => by
    subst hsource
    exact hd

variable {statistics base : Nat} {id : ProviderId} {before after : List (StoreOp α)}

theorem recorded_addManaged {m : Store α} (hnone : m.janitors.size = 0)
    (hrecords : source.Records config 0 [] m.feeds) (hook : Hook) (p : Provider) :
    (sole statistics base id).Recorded source config 0 0
    (StoreOp.perform m (.addManaged statistics hook p)) := by
  have hjanitors : (StoreOp.perform m (.addManaged statistics hook p)).janitors = #[{}] := by
    change m.janitors.push {} = _
    rw [Array.eq_empty_of_size_eq_zero hnone]
    rfl
  have hself : (StoreOp.perform m (.addManaged statistics hook p)).janitor
    (sole statistics base id).slot = {} := by
    rw [Store.janitor, hjanitors]
    rfl
  refine ⟨?_, ?_, ?_⟩
  · rw [hjanitors]
    exact Nat.zero_lt_one
  · rw [hself]
    exact fun hreleased => absurd hreleased Bool.false_ne_true
  · rw [hself]
    exact hrecords

variable (hsource : source.cursor? = none) (hvalid : config.validate = .ok ())

include hsource hvalid

theorem run_made : StoreOp.run {} [.addSource source, .addBuffer config 0] =
    { feeds := (({} : Feeds α).add source).2.setBuffer 0 (some (source.supply config).start) } := by
  have hsourced : (({} : Store α).after (Store.addSource source)).feeds.source? 0 = some source := rfl
  rw [StoreOp.run, List.foldl_cons, List.foldl_cons, List.foldl_nil]
  simp only [StoreOp.perform]
  rw [afterWith_eq, StoreOp.run_addBuffer_eq hsource hvalid hsourced]
  rfl

theorem records_before (hbefore : ∀ d ∈ before, d.Unmanaged 0) {m : Store α}
    (hm : StoreOp.run {} ([.addSource source, .addBuffer config 0] ++ before) = m) :
    m.feeds.cells.size = 1 ∧ source.Records config 0 [] m.feeds ∧ m.janitors.size = 0 := by
  rw [← hm, StoreOp.run_append, run_made hsource hvalid]
  refine List.foldlRecOn (motive := fun m : Store α =>
      m.feeds.cells.size = 1 ∧ source.Records config 0 [] m.feeds ∧ m.janitors.size = 0)
    before StoreOp.perform ⟨?_, ?_, rfl⟩ fun m' h d hd => ⟨?_, ?_⟩
  · exact Feeds.size_setBuffer ..
  · have hhas : source.Has config 0 ((({} : Feeds α).add source).2.setBuffer 0
        (some (source.supply config).start)) ⟨false, 0⟩ := Source.has_setBuffer rfl
    exact ⟨_, hhas, rfl, rfl⟩
  · exact ((hbefore d hd).size_perform m').trans h.1
  · exact (hbefore d hd).perform (Source.bufferStable_records hsource hvalid) h.1 h.2

theorem recorded_run (hbefore : ∀ d ∈ before, d.Unmanaged 0) {hook : Hook}
    (hafter : ∀ d ∈ after, d.Unmanaged 0 ∨ (sole statistics base id).Manages d) {m : Store α}
    (hm : StoreOp.run {} ((sole statistics base id).course source config before hook after) = m) :
    m.feeds.cells.size = 1 ∧
      ∃ outstanding faults, (sole statistics base id).Recorded source config outstanding faults m := by
  obtain ⟨hsize, hrecords, hnone⟩ := records_before hsource hvalid hbefore rfl
  rw [← hm, course, StoreOp.run_append, StoreOp.run, List.foldl_cons]
  refine List.foldlRecOn (motive := fun m : Store α => m.feeds.cells.size = 1 ∧
      ∃ outstanding faults, (sole statistics base id).Recorded source config outstanding faults m)
    after StoreOp.perform ⟨hsize, 0, 0, recorded_addManaged hnone hrecords hook _⟩ fun m' h d hd => ?_
  -- no operation adds a feed, so the buffer is still the only one
  obtain ⟨hone, outstanding, faults, hrecorded⟩ := h
  obtain ⟨outstanding', faults', hrecorded', -⟩ := hrecorded.perform hsource hvalid hone (hafter d hd)
  refine ⟨?_, outstanding', faults', hrecorded'⟩
  rcases hafter d hd with hd | hd
  · exact (hd.size_perform m').trans hone
  · exact (hd.size_perform m').trans hone

/-- After any run over one buffer and a managed provider of it, with any number of cursors, the log has
each bucket allocation in order with its capacity, exhaustion, failure and close, and the close and
release of the provider, each once if it has happened and not otherwise. The release is logged with the
number of cursors open at that time. -/
theorem lifecycle_logged (hbefore : ∀ d ∈ before, d.Unmanaged 0) {hook : Hook}
    (hafter : ∀ d ∈ after, d.Unmanaged 0 ∨ (sole statistics base id).Manages d) {m : Store α}
    (hm : StoreOp.run {} ((sole statistics base id).course source config before hook after) = m) :
    (sole statistics base id).Replays config m ∧
      ∀ d : StoreOp α, d.Unmanaged 0 ∨ (sole statistics base id).Manages d →
        ∃ new, (d.perform m).feeds.log.toList = m.feeds.log.toList ++ new ∧
          ∀ outstanding faults, .resourcesReleased id outstanding faults ∈ new →
            ((d.perform m).janitor 0).openCursors = outstanding := by
  obtain ⟨hone, outstanding, faults, hrecorded⟩ := recorded_run hsource hvalid hbefore hafter hm
  refine ⟨hrecorded.replays hvalid, fun d hd => ?_⟩
  obtain ⟨new, hnew⟩ : m.feeds.Grows (d.perform m).feeds :=
    StoreOp.unrestricted_perform Feeds.unrestricted_grows m d fun _ _ => List.prefix_rfl
  exact ⟨new, hnew.symm, fun outstanding' faults' hlogged =>
    Counted.openCursors_eq hrecorded (hrecorded.perform hsource hvalid hone hd) hnew.symm hlogged⟩

end running

/-- A buffer limited to two items, over a source of three that panics in `close`, read by one cursor
until it fails. -/
def overfilled : Store Nat :=
  StoreOp.run {} ((sole 0 0 ⟨1⟩).course (.playing #[.item 4, .item 5, .item 6] none (.panic ⟨none⟩))
    ⟨1, 1, .limited 2 (by decide), .owned⟩ [.addStatistics, .addBase 0, .hasNext 0 0] .plain
    [.openCursor ((sole 0 0 ⟨1⟩).hooked .plain), .cursorOp ((sole 0 0 ⟨1⟩).cursor false {}) (.items 4)])

theorem lifecycle_logged_overfilled :
    (sole 0 0 ⟨1⟩).Replays ⟨1, 1, .limited 2 (by decide), .owned⟩ overfilled ∧
      overfilled.feeds.log.toList =
        [.bucketAllocated 0 1, .bucketAllocated 1 1, .bucketAllocated 2 1, .sizeExceeded 2] ∧
      ∃ new, (StoreOp.perform overfilled (.release (sole 0 0 ⟨1⟩).janitor)).feeds.log.toList =
          overfilled.feeds.log.toList ++ new ∧
        .resourcesReleased ⟨1⟩ 1 1 ∈ new ∧
        ((StoreOp.perform overfilled (.release (sole 0 0 ⟨1⟩).janitor)).janitor 0).openCursors = 1 := by
  have hbefore : ∀ d ∈ [StoreOp.addStatistics, .addBase 0, .hasNext 0 0], d.Unmanaged (α := Nat) 0 := by
    simp [StoreOp.Unmanaged]
  have hafter : ∀ d ∈ [StoreOp.openCursor ((sole 0 0 ⟨1⟩).hooked .plain),
      .cursorOp ((sole 0 0 ⟨1⟩).cursor false {}) (.items 4)],
      d.Unmanaged (α := Nat) 0 ∨ (sole 0 0 ⟨1⟩).Manages d := by
    simp only [List.forall_mem_cons]
    exact ⟨.inr ⟨.plain, rfl⟩, .inr ⟨rfl, rfl⟩, fun d hd => absurd hd List.not_mem_nil⟩
  have hsource : (Source.playing #[.item 4, .item 5, .item 6] none (.panic ⟨none⟩)).cursor? = none := rfl
  have hvalid : (⟨1, 1, .limited 2 (by decide), .owned⟩ : Config).validate = .ok () := rfl
  obtain ⟨hreplays, hnext⟩ := lifecycle_logged (m := overfilled) hsource hvalid hbefore hafter rfl
  obtain ⟨new, hnew, hcount⟩ := hnext (.release (sole 0 0 ⟨1⟩).janitor) (.inr rfl)
  have hstart : overfilled.feeds.log.toList =
      [.bucketAllocated 0 1, .bucketAllocated 1 1, .bucketAllocated 2 1, .sizeExceeded 2] := by decide
  have hmem : .resourcesReleased ⟨1⟩ 1 1 ∈ new := by
    have hlog : (StoreOp.perform overfilled (.release (sole 0 0 ⟨1⟩).janitor)).feeds.log.toList.drop 4 =
        [.providerClosed ⟨1⟩, .managedProviderClosed ⟨1⟩, .bufferClosed 3 .owned,
          .faultSwallowed ⟨⟨1⟩, .releaseProvider, "panicked: non-string panic payload"⟩,
          .resourcesReleased ⟨1⟩ 1 1] := by decide
    rw [hnew, hstart] at hlog
    rw [show new = _ from hlog]
    decide
  exact ⟨hreplays, hstart, new, hnew, hmem, hcount 1 1 hmem⟩

end Host
end Replay
