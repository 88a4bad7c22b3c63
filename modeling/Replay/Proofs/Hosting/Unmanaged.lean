import Replay.Proofs.Performing
import Replay.Proofs.Sources.Recorded
import Replay.Proofs.Unlogged

/-!
Operations on a buffer that bypass the provider managing it: reads, closing the buffer, and unmanaged
providers of it. An invariant that survives reads and closing the buffer survives all of them.
-/
namespace Replay

open Store

variable {α β γ : Type}

namespace Store

/-- The call preserves `P`. -/
def Call.Under (P : Store α → Prop) (f : Call α β) : Prop := ∀ m, P m → P (f.run m).2

/-- `P` depends on the feeds and janitors only, and events of other objects do not affect it. -/
structure FeedsJanitorsOnly (P : Store α → Prop) : Prop where
  aside : ∀ {m m' : Store α}, m'.feeds = m.feeds → m'.janitors = m.janitors → P m → P m'
  note : ∀ {m : Store α} {e : Event}, e.ofBuffer = false → e.ofProvider = false → P m →
    P { m with feeds := m.feeds.note e }

/-- `P` survives reads of the buffer of `feed` and its close. -/
structure BufferStable (feed : Nat) (P : Store α → Prop) : Prop extends FeedsJanitorsOnly P where
  lt_size : ∀ {m : Store α}, P m → feed < m.feeds.cells.size
  asked : ∀ {m : Store α} {s : Feeds α}, P m →
    (∀ Q : Feeds α → Prop, Feeds.AskInvariant feed Q → Q m.feeds → Q s) → P { m with feeds := s }
  closeBuffer : ∀ left, Call.Under P (Store.closeBuffer (switches left) feed)
  retire : ∀ r, Call.Under P (retire r)

variable {P : Store α → Prop} {f : Call α β} {g : β → Call α γ}

namespace Call.Under

theorem pure (x : β) : Call.Under P (Pure.pure x : Call α β) := fun _ h => h

theorem bind (hf : f.Under P) (hg : ∀ x, (g x).Under P) : (f >>= g).Under P := fun m h => hg _ _ (hf m h)

theorem get : Call.Under P (MonadState.get : Call α (Store α)) := fun _ h => h

end Call.Under

namespace FeedsJanitorsOnly

theorem onStatistics (hP : FeedsJanitorsOnly P) (slot : Nat) (f : Statistics → Statistics) :
    (Store.onStatistics slot f : Call α Unit).Under P := fun m h => hP.aside (m := m) rfl rfl h

theorem closeBase (hP : FeedsJanitorsOnly P) (slot : Nat) : (Store.closeBase slot : Call α Unit).Under P :=
  fun m h => hP.aside (m := m) rfl rfl h

theorem record (hP : FeedsJanitorsOnly P) (report : Report) (provider : ProviderId) (stage : Stage)
    (outcome : Outcome StreamError Unit) : (report.record (α := α) provider stage outcome).Under P := by
  unfold Report.record
  split
  · exact .pure _
  · exact .bind (fun _ h => hP.note rfl rfl h) fun _ => .pure _

end FeedsJanitorsOnly

theorem mem_throughChains (m : Store α) {feed : Nat} (most : Nat) {r : Reach} (h : feed ∈ r.feeds) :
    feed ∈ (m.throughChains most r).feeds := by
  induction most generalizing r with
  | zero => exact h
  | succ most ih =>
    rw [throughChains]
    refine ih ?_
    split
    · split
      · exact List.mem_append_left _ h
      · exact h
    · exact h

theorem janitor_retire (r : Reach) (m : Store α) (slot : Nat) {g : JanitorState → β}
    (hg : ∀ t b, g { t with retired := b } = g t) :
    g (((Store.retire r).run m).2.janitor slot) = g (m.janitor slot) := by
  simp only [retire, Call.run_modify, janitor, Array.getD_eq_getD_getElem?, Array.getElem?_mapIdx]
  cases m.janitors[slot]? with
  | none => rfl
  | some t => exact hg t _

namespace BufferStable

variable {feed : Nat} {m : Store α} {c : Cursor}

theorem hasNext (hP : BufferStable feed P) (offset : Nat) : Call.Under P
    (onFeeds (Feeds.onBuffer feed (Buffer.hasNext (Feeds.tap Feeds.draw feed) offset))) :=
  fun _ h => hP.asked h fun _ hQ hs => (hQ.own (hP.lt_size h) hs).1 offset

theorem bucketFor (hP : BufferStable feed P) (offset : Nat) : Call.Under P
    (onFeeds (Feeds.onBuffer feed (Buffer.bucketFor (Feeds.tap Feeds.draw feed) offset))) :=
  fun _ h => hP.asked h fun _ hQ hs => (hQ.own (hP.lt_size h) hs).2.1 offset

theorem skip (hP : BufferStable feed P) (count : Nat) (hc : c.feed = feed) : (c.skip count).Under P := by
  induction count generalizing c with
  | zero => exact .pure _
  | succ count ih =>
    intro m h
    have hread : P ((c.read).run m).2 :=
      hP.asked h fun _ hQ hs => ((hQ.own (hP.lt_size h) hs).2.2 c hc).2
    have hbare : ((c.read).run m).1.2.bare = c.bare := (c.readsTo_nextBy Feeds.endsNothing_draw).2
    rw [Cursor.skip, Call.run_bind]
    rcases hrun : (c.read).run m with ⟨⟨(_ | p) | x, c'⟩, m'⟩
    all_goals
      rw [hrun] at hread hbare
      have hnext : c'.feed = feed := by rw [← c'.feed_bare, hbare, c.feed_bare, hc]
    · exact ih hnext m' hread
    · exact hread
    · exact ih hnext m' hread

theorem reads (hP : BufferStable feed P) {t : CursorOp} (ht : t.Reads) (hc : c.feed = feed) (h : P m) :
    P ((t.perform c).run m).2 := by
  rw [ht.store]
  refine hP.asked h fun Q hQ hs => ?_
  have hlt := hP.lt_size h
  have hreader : (Cursor.reader (α := α)).Preserves fun place =>
      place.1.feed = feed ∧ place.2.cells.size = m.feeds.cells.size ∧ Q place.2 := by
    rintro ⟨c, s⟩ ⟨hc, hsize, hs⟩
    have haskInvariant := (hQ.own (hsize.symm ▸ hlt) hs).2.2 c hc
    refine c.stepBy_preserves (P := fun place => place.1.feed = feed ∧
      place.2.cells.size = m.feeds.cells.size ∧ Q place.2)
      ⟨hc, c.size_hasNextBy Feeds.sizePreserving_draw hsize, haskInvariant.1⟩ fun s' hs' => ⟨?_, ?_, ?_⟩
    · rw [← Cursor.feed_bare, (c.readsTo_nextBy Feeds.endsNothing_draw).2, c.feed_bare, hc]
    · exact c.size_nextBy Feeds.sizePreserving_draw hs'.2.1
    · exact ((hQ.own (hs'.2.1.symm ▸ hlt) hs'.2.2).2.2 c hc).2
  have hstart : c.feed = feed ∧ m.feeds.cells.size = m.feeds.cells.size ∧ Q m.feeds := ⟨hc, rfl, hs⟩
  cases t with
  | hasNext => exact ((hQ.own hlt hs).2.2 c hc).1
  | next => exact ((hQ.own hlt hs).2.2 c hc).2
  | read room => exact (hreader.fill room hstart).2.2
  | items count => exact (hreader.take count hstart).2.2
  | drain most => exact (hreader.drain most #[] hstart).2.2
  | seek position => exact ht.elim
  | release => exact ht.elim
  | close => exact ht.elim

theorem seek (position : Nat) (c : Cursor) : (CursorOp.perform c (.seek position)).Under P := by
  rw [CursorOp.perform]
  split
  · exact .pure _
  · exact .pure _

theorem openBase (w : Switches α) (slot feed : Nat) (id : ProviderId) :
    ((Provider.base slot id feed).openCursor w).Under P := by
  refine .bind .get fun m => ?_
  split
  · exact .pure _
  · exact .pure _

theorem closeBase (hP : BufferStable feed P) (w : Switches α) (slot other : Nat) (id : ProviderId) :
    ((Provider.base slot id other).close w none).Under P := by
  rw [Provider.close_base]
  refine .bind .get fun m => ?_
  split
  · refine .bind (.pure _) fun _ => ?_
    exact .pure _
  · refine .bind (hP.toFeedsJanitorsOnly.closeBase slot) fun _ => ?_
    refine .bind (fun _ h => hP.note rfl rfl h) fun _ => ?_
    exact .pure _

theorem releaseBase (hP : BufferStable feed P) (left slot : Nat) (id : ProviderId) :
    ((Provider.base slot id feed).release (switches (left + 1)) none).Under P := by
  refine .bind (.pure _) fun _ => ?_
  refine .bind (hP.toFeedsJanitorsOnly.closeBase slot) fun _ => ?_
  refine .bind (hP.closeBuffer left) fun _ => ?_
  exact .pure _

theorem settle (hP : BufferStable feed P) (w : Switches α) {held : Reach} (hheld : feed ∈ held.feeds)
    (hone : m.feeds.cells.size = 1) (h : P m) : P ((Store.settle w held).run m).2 := by
  have hfeed : feed = 0 := by
    have hlt := hP.lt_size h
    omega
  have hmem := List.contains_iff_mem.mpr (mem_throughChains m 1 (hfeed ▸ hheld))
  have hnone : (Store.dropUnreached w (m.throughChains 1 held) 1).run m = ((), m) := by
    simp only [dropUnreached, hmem, Bool.not_true, Bool.false_eq_true, if_false]
    rfl
  rw [Store.settle]
  simp only [Call.run_bind, Call.run_get, hone, hnone]
  exact hP.retire _ m h

end BufferStable
end Store

theorem Source.bufferStable_records {source : Source α} {config : Config} {feed janitors : Nat}
    {ends : List Event}
    (hsource : source.cursor? = none) (hvalid : config.validate = .ok ()) :
    BufferStable feed fun m : Store α => source.Records config feed ends m.feeds ∧
      m.janitors.size = janitors where
  aside hfeeds hjanitors h := ⟨hfeeds ▸ h.1, hjanitors ▸ h.2⟩
  note hbuffer hprovider h := ⟨h.1.note hbuffer hprovider, h.2⟩
  lt_size h := h.1.lt_size
  asked h hs := ⟨hs _ (Source.askInvariant_records hsource hvalid) h.1, h.2⟩
  closeBuffer left m h := by
    obtain ⟨s', hs', hrun⟩ := h.1.closeBuffer hsource hvalid left
    rw [hrun]
    exact ⟨hs', h.2⟩
  retire _ _ h := ⟨h.1, Array.size_mapIdx.trans h.2⟩

namespace StoreOp

/-- The operations on the buffer of `feed` other than those through a managed provider. -/
def Unmanaged (feed : Nat) : StoreOp α → Prop
  | openCursor p | endProvider p _ => ∃ slot id, p = .base slot id feed
  | cursorOp c _ | drop c => ∃ provider head, c = .plain feed provider head
  | addBase other | hasNext other _ | bucketFor other _ | closeBuffer other => other = feed
  | settle held => feed ∈ held.feeds
  | addStatistics | addProviderId => True
  | _ => False

theorem Unmanaged.perform {feed : Nat} {P : Store α → Prop} (hP : BufferStable feed P)
    {d : StoreOp α} {m : Store α}
    (hd : d.Unmanaged feed) (hone : m.feeds.cells.size = 1) (h : P m) : P (d.perform m) := by
  cases d with
  | addBase other => exact hP.aside (m := m) rfl rfl h
  | addStatistics => exact hP.aside (m := m) rfl rfl h
  | addProviderId => exact hP.aside (m := m) rfl rfl h
  | openCursor p =>
    obtain ⟨slot, id, rfl⟩ := hd
    rw [StoreOp.perform, afterWith_eq]
    exact BufferStable.openBase _ slot feed id m h
  | endProvider p ending =>
    obtain ⟨slot, id, rfl⟩ := hd
    cases ending with
    | close =>
      rw [StoreOp.perform, afterWith_eq]
      exact hP.closeBase _ slot feed id m h
    | release =>
      have hlt := hP.lt_size h
      obtain ⟨left, hleft⟩ : ∃ left, m.endings = left + 1 :=
        Nat.exists_eq_add_one.mpr (by unfold Store.endings; omega)
      rw [StoreOp.perform, afterWith_eq, hleft]
      exact hP.releaseBase left slot id m h
  | hasNext other offset =>
    obtain rfl := hd
    exact hP.hasNext offset m h
  | bucketFor other offset =>
    obtain rfl := hd
    exact hP.bucketFor offset m h
  | closeBuffer other =>
    obtain rfl := hd
    rw [StoreOp.perform, afterWith_eq]
    exact hP.closeBuffer _ m h
  | cursorOp c t =>
    obtain ⟨provider, head, rfl⟩ := hd
    rcases t.reads_or with ht | ⟨position, rfl⟩ | rfl | rfl
    · exact hP.reads ht rfl h
    · exact BufferStable.seek position _ m h
    · exact h
    · exact h
  | drop c =>
    obtain ⟨provider, head, rfl⟩ := hd
    exact h
  | settle held =>
    rw [StoreOp.perform, afterWith_eq]
    exact hP.settle _ hd hone h
  | _ => exact hd.elim

theorem Unmanaged.size_perform {feed : Nat} {d : StoreOp α} (hd : d.Unmanaged feed) (m : Store α) :
    (d.perform m).feeds.cells.size = m.feeds.cells.size :=
  StoreOp.size_perform m fun source hsource => by
    subst hsource
    exact hd

end StoreOp
end Replay
