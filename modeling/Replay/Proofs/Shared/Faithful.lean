import Replay.Proofs.Shared.Using

/-!
Faithfulness of the replies: every cursor, in every interleaving, reads at an offset the item that the
source brought there.
-/
namespace Replay

open Store

variable {α : Type}

/-- The reply agrees with the items pulled so far, and a bucket handle with the buffer. -/
def Reply.Faithful (items : List α) (b : Buffer α) : Reply α → Prop
  | .item offset (.ok a) => items[offset]? = some a
  | .bucket offset (.ok (some held)) => ∃ p a, b.layout.locate offset = some p ∧
      b.item? held p = some a ∧ items[offset]? = some a
  | .read offset (.ok got) => StretchAt items offset got
  | .items offset (.ok entries) => StretchAt items offset (Items.brought entries)
  | .drained offset (.ok (got, _)) => StretchAt items offset got.toList
  | _ => True

theorem Reply.Faithful.mono {items more : List α} {b c : Buffer α} {reply : Reply α}
    (h : reply.Faithful items b) (hm : items <+: more) (hl : c.layout = b.layout)
    (hc : ∀ held p a, b.item? held p = some a → c.item? held p = some a) :
    reply.Faithful more c := by
  unfold Faithful at *
  split
  · exact getElem?_mono hm h
  · obtain ⟨p, a, hp, ha, hi⟩ := h
    exact ⟨p, a, hl ▸ hp, hc _ _ _ ha, getElem?_mono hm hi⟩
  · exact StretchAt.mono h hm
  · exact StretchAt.mono h hm
  · exact StretchAt.mono h hm
  · trivial

namespace Supply

variable {t : Supply α} {feed : Nat} {base : Array Event} {k : Progress}

theorem AtProgress.take (hvalid : t.config.validate = .ok ()) {m : Store α}
    (h : t.AtProgress feed base m.feeds k) (id : ProviderId) (head : Head) (cursorOp : CursorOp) :
    ∃ l reply head' m', k ≤ l ∧ t.AtProgress feed base m'.feeds l ∧
      (cursorOp.perform (.plain feed id head)).run m = ((reply, .plain feed id head'), m') ∧
      reply.Faithful (t.items l.count) (t.kept l) := by
  have hstands : t.AtPosition feed base id (.plain feed id head, m.feeds) k head.position :=
    ⟨head, rfl, rfl, h⟩
  have hitems : t.AtPosition feed base id (Items.mk (Cursor.plain feed id head, m.feeds) false).rest k
      head.position := hstands
  have hfollows := follows hvalid feed base id
  cases cursorOp with
  | hasNext =>
    obtain ⟨l, r, s', hle, h', hhas⟩ := h.hasNextBy hvalid id head
    refine ⟨l, .flag head.position r, head, { m with feeds := s' }, hle, h', ?_, trivial⟩
    simp only [CursorOp.perform, onFeeds, Call.run_bind, Call.run_modifyGet, Call.run_pure, Cursor.hasNext,
      hhas]
    rfl
  | next =>
    obtain ⟨l, r, head', s', hle, h', hnext, hr⟩ := h.nextBy hvalid id head
    refine ⟨l, .item head.position r, head', { m with feeds := s' }, hle, h', ?_, ?_⟩
    · simp only [CursorOp.perform, Cursor.read, onFeeds, Call.run_bind, Call.run_modifyGet, Call.run_pure,
        Cursor.next, hnext]
      rfl
    · cases r with
      | ok a => exact hr.1
      | error stop => trivial
  | seek position =>
    cases hclosed : head.closed with
    | true =>
      refine ⟨k, .moved (.error .cursorClosed), head, m, le_rfl, h, ?_, trivial⟩
      simp only [CursorOp.perform, Cursor.seek, Head.seek, hclosed, if_true]
      rfl
    | false =>
      refine ⟨k, .moved (.ok ()), { head with position }, m, le_rfl, h, ?_, trivial⟩
      simp only [CursorOp.perform, Cursor.seek, Head.seek, hclosed, Bool.false_eq_true, if_false]
      rfl
  | release =>
    exact ⟨k, .done, head.release, m, le_rfl, h, rfl, trivial⟩
  | close =>
    exact ⟨k, .done, head.close, m, le_rfl, h, rfl, trivial⟩
  | read room =>
    obtain ⟨l, q, hle, hat, hr⟩ := hfollows.fill room hstands
    rcases hf : Cursor.reader.fill room (.plain feed id head, m.feeds) with ⟨r, c, s⟩
    rw [hf] at hat hr
    obtain ⟨head', rfl, -, h'⟩ := hat
    refine ⟨l, .read head.position r, head', { m with feeds := s }, hle, h', ?_, ?_⟩
    · simp only [CursorOp.perform, onFeeds, Call.run_modifyGet, hf]
      rfl
    · cases r with
      | ok got => exact hr.1
      | error stop => trivial
  | items n =>
    obtain ⟨l, q, hle, hat, hr⟩ := hfollows.take n hitems
    rcases hf : Items.take Cursor.reader n ⟨(.plain feed id head, m.feeds), false⟩ with
      ⟨r, ⟨c, s⟩, failed⟩
    rw [hf] at hat hr
    obtain ⟨head', rfl, -, h'⟩ := hat
    refine ⟨l, .items head.position r, head', { m with feeds := s }, hle, h', ?_, ?_⟩
    · simp only [CursorOp.perform, onFeeds, Call.run_modifyGet, hf]
      rfl
    · cases r with
      | ok entries => exact (hr entries rfl).1
      | error p => trivial
  | drain most =>
    obtain ⟨l, q, hle, hat, hr⟩ := hfollows.drain most #[] hitems
    rcases hf : Items.drain Cursor.reader most #[] ⟨(.plain feed id head, m.feeds), false⟩ with
      ⟨r, ⟨c, s⟩, failed⟩
    rw [hf] at hat hr
    obtain ⟨head', rfl, -, h'⟩ := hat
    refine ⟨l, .drained head.position r, head', { m with feeds := s }, hle, h', ?_, ?_⟩
    · simp only [CursorOp.perform, onFeeds, Call.run_modifyGet, hf]
      rfl
    · cases r with
      | ok drained =>
        obtain ⟨got, hall, hgot, -⟩ := hr drained.1 drained.2 rfl
        change StretchAt _ _ drained.1.toList
        rw [hall]
        simpa using hgot
      | error p => trivial

/-- A shared buffer at progress `k`, and the plain cursors on it. -/
structure Reached (t : Supply α) (base : Array Event) (s : Shared α) (k : Progress) : Prop where
  atProgress : t.AtProgress s.feed base s.store.feeds k
  cursors : ∀ c ∈ s.cursors, ∃ id head, c = .plain s.feed id head

variable {s : Shared α}

/-- A valid configuration gives a buffer, which has not pulled yet. -/
theorem reached_begin (hvalid : t.config.validate = .ok ()) (m : Store α) :
    ∃ s, Shared.begin m t = (.ok (), s) ∧ t.Reached m.feeds.log s ⟨false, 0⟩ := by
  obtain ⟨feed, added⟩ : ∃ feed feeds, m.feeds.add (t.source 0) = (feed, feeds) ∧
      feeds.log = m.feeds.log ∧ feeds.cells[feed]? = some { source := some (t.source 0) } :=
    ⟨_, _, rfl, rfl, Array.getElem?_push_size⟩
  obtain ⟨feeds, hadd, hlog, hcell⟩ := added
  have hhint : (feeds.source? feed).bind feeds.announced = t.hint := by
    rw [Feeds.source?_eq hcell]
    rfl
  have hbuffer : Buffer.ofConfig t.config ((feeds.source? feed).bind feeds.announced) =
      .ok t.start := by
    rw [hhint, Buffer.ofConfig, hvalid]
    rfl
  refine ⟨⟨{ m with feeds := feeds.setBuffer feed (some t.start) }, feed, []⟩, ?_, ⟨?_, nofun⟩⟩
  · simp only [Shared.begin, addSource, onFeeds, Call.run_modifyGet, hadd, withSwitches, addBuffer,
      Call.run_bind, Call.run_get, hbuffer, Call.run_modify, Call.run_pure]
  · refine ⟨fun _ he => absurd he (Nat.not_lt_zero _), ?_, ?_⟩
    · exact Feeds.cell_modify hcell _
    · simpa [events, Buffer.events, Feeds.setBuffer] using hlog

theorem Reached.use (hvalid : t.config.validate = .ok ()) (h : t.Reached base s k) (u : SharedOp) :
    ∃ l, k.ReachedBy [u] l ∧ t.Reached base (s.use u).2 l ∧
      (s.use u).1.Faithful (t.items l.count) (t.kept l) := by
  cases u with
  | addCursor provider =>
    refine ⟨k, .of_le le_rfl nofun, ⟨h.atProgress, ?_⟩, trivial⟩
    intro c hc
    rcases List.mem_append.mp hc with hc | hc
    · exact h.cursors c hc
    · exact ⟨provider, {}, List.mem_singleton.mp hc⟩
  | cursorOp i cursorOp =>
    cases hi : s.cursors[i]? with
    | none =>
      simp only [Shared.use, hi]
      exact ⟨k, .of_le le_rfl nofun, h, trivial⟩
    | some c =>
      obtain ⟨id, head, rfl⟩ := h.cursors c (List.mem_of_getElem? hi)
      obtain ⟨l, reply, head', m', hle, hprogress, htake, hreply⟩ := h.atProgress.take hvalid id head cursorOp
      simp only [Shared.use, hi, htake]
      refine ⟨l, .of_le hle nofun, ⟨hprogress, ?_⟩, hreply⟩
      intro c hc
      rcases List.mem_or_eq_of_mem_set hc with hc | rfl
      · exact h.cursors c hc
      · exact ⟨id, head', rfl⟩
  | hasNext offset =>
    obtain ⟨l, r, s', hprogress, hanswers⟩ := h.atProgress.answers hvalid offset
    simp only [Shared.use, Shared.call, onFeeds, Call.run_modifyGet, hanswers.hasNext]
    exact ⟨l, .of_le hanswers.le nofun, ⟨hprogress, h.cursors⟩, trivial⟩
  | bucketFor offset =>
    obtain ⟨l, r, s', hprogress, hanswers⟩ := h.atProgress.answers hvalid offset
    simp only [Shared.use, Shared.call, onFeeds, Call.run_modifyGet, hanswers.bucketFor]
    refine ⟨l, .of_le hanswers.le nofun, ⟨hprogress, h.cursors⟩, ?_⟩
    rcases r with stop | found
    · trivial
    · cases found with
      | false => trivial
      | true =>
        obtain ⟨p, a, hp, -, ha, hgot⟩ := hanswers.found hvalid
        rw [Buffer.heldAt, hp]
        exact ⟨p, a, (layout_kept hvalid hprogress.pulls).symm ▸ hp, ha, hgot⟩
  | close => exact ⟨_, .close k, ⟨h.atProgress.closeBuffer hvalid _, h.cursors⟩, trivial⟩

theorem Reached.run (hvalid : t.config.validate = .ok ()) (h : t.Reached base s k) (us : List SharedOp) :
    ∃ l, k.ReachedBy us l ∧ t.Reached base (s.run us).2 l ∧
      ∀ reply ∈ (s.run us).1, reply.Faithful (t.items l.count) (t.kept l) := by
  induction us generalizing s k with
  | nil => exact ⟨k, .nil k, h, nofun⟩
  | cons u us ih =>
    obtain ⟨l, hl, h', hreply⟩ := h.use hvalid u
    obtain ⟨m, hm, h'', hreplies⟩ := ih h'
    refine ⟨m, hl.cons hm, h'', ?_⟩
    intro reply hmem
    rcases List.mem_cons.mp hmem with rfl | hmem
    · have hlayout : (t.kept m).layout = (t.kept l).layout :=
        (layout_kept hvalid h''.atProgress.pulls).trans (layout_kept hvalid h'.atProgress.pulls).symm
      exact hreply.mono (delivered_mono t.outcomes hm.count_le) hlayout
        fun held p a ha => item?_kept hvalid h''.atProgress.pulls hm.count_le ha
    · exact hreplies reply hmem

theorem Reached.buffer?_eq (h : t.Reached base s k) : s.buffer? = some (t.kept k) :=
  h.atProgress.buffer?_eq

theorem Reached.pulls_eq (h : t.Reached base s k) : s.pulls = k.count := by
  simp [Shared.pulls, h.atProgress.cell, cell]

end Supply

namespace Shared

/-- In every run over a shared buffer, `next` at an offset returns the item pulled there, and
`bucket_for` returns the bucket holding it at its slot. -/
theorem replies_faithful (t : Supply α) (hvalid : t.config.validate = .ok ()) (m : Store α) :
    ∃ s, begin m t = (.ok (), s) ∧ ∀ us, ∃ b, (s.run us).2.buffer? = some b ∧
      ∀ reply ∈ (s.run us).1, reply.Faithful (t.items (s.run us).2.pulls) b := by
  obtain ⟨s, hs, hreached⟩ := Supply.reached_begin hvalid m
  refine ⟨s, hs, fun us => ?_⟩
  obtain ⟨l, -, h, hreplies⟩ := hreached.run hvalid us
  refine ⟨t.kept l, h.buffer?_eq, ?_⟩
  rw [h.pulls_eq]
  exact hreplies

theorem replies_faithful_five :
    ∃ s, begin {} (.counting ⟨2, 3, .unbounded, .owned⟩ 5) = (.ok (), s) ∧
      ∀ us, ∃ b, (s.run us).2.buffer? = some b ∧ ∀ reply ∈ (s.run us).1,
        reply.Faithful ((Supply.counting ⟨2, 3, .unbounded, .owned⟩ 5).items (s.run us).2.pulls) b :=
  replies_faithful _ rfl {}

end Shared
end Replay
