import Replay.Proofs.Buffer.Growing
import Replay.Proofs.Promises.Upkeep
import Replay.Proofs.Watching

/-!
Every operation on the store preserves all buckets, up to items added; an open buffer publishes the
buckets it has published before.
-/
namespace Replay

open Store

variable {α β : Type} {feed other : Nat}

namespace Feeds

variable {s s' s'' : Feeds α} {b b' : Buffer α}

/-- The buffer of `feed` in `s'` extends that in `s`. -/
def BufferExtends (feed : Nat) (s s' : Feeds α) : Prop :=
  ∀ b, s.buffer? feed = some b → ∃ b', s'.buffer? feed = some b' ∧ b.Extends b'

theorem BufferExtends.refl (s : Feeds α) : BufferExtends feed s s := fun b hb => ⟨b, hb, .refl b⟩

theorem BufferExtends.trans (h : BufferExtends feed s s') (h' : BufferExtends feed s' s'') :
    BufferExtends feed s s'' := by
  intro b hb
  obtain ⟨b', hb', hpersists⟩ := h b hb
  obtain ⟨b'', hb'', hpersists'⟩ := h' b' hb'
  exact ⟨b'', hb'', hpersists.trans hpersists'⟩

theorem BufferExtends.of_same (h : s'.buffer? feed = s.buffer? feed) : BufferExtends feed s s' :=
  fun b hb => ⟨b, h.trans hb, .refl b⟩

theorem buffer?_modify_of_ne (hne : other ≠ feed) (f : Feed α → Feed α) :
    (s.modify other f).buffer? feed = s.buffer? feed := by
  rw [buffer?, cell_modify_of_ne hne, ← buffer?]

theorem bufferExtends_setSource (source : Option (Source α)) (s : Feeds α) :
    BufferExtends feed s (s.setSource other source) :=
  .of_same (buffer?_modify (f := fun c => { c with source }) (fun _ => rfl) feed)

theorem bufferExtends_count (f : Tally → Tally) (s : Feeds α) : BufferExtends feed s (s.count other f) :=
  .of_same (buffer?_modify (f := fun c => { c with tally := f c.tally }) (fun _ => rfl) feed)

theorem BufferExtends.setBuffer (hb : s.buffer? feed = some b) (h : b.Extends b') :
    BufferExtends feed s (s.setBuffer feed (some b')) := by
  intro b₀ hb₀
  cases hb.symm.trans hb₀
  exact ⟨b', buffer?_setBuffer (lt_size_of_buffer? hb) _, h⟩

theorem bufferExtends_add (source : Source α) (s : Feeds α) : BufferExtends feed s (s.add source).2 := by
  intro b hb
  refine ⟨b, ?_, .refl b⟩
  rw [buffer?, add, Array.getElem?_push_lt (lt_size_of_buffer? hb), ← hb, buffer?,
    Array.getElem?_eq_getElem (lt_size_of_buffer? hb)]

theorem bufferExtends_onBuffer {f : Buffer α → Feeds α → Outcome StreamError β × Buffer α × Feeds α}
    (hf : ∀ (b : Buffer α) s, b.Extends (f b s).2.1) (hsize : ∀ b s, (f b s).2.2.cells.size = s.cells.size) :
    BufferExtends feed s (s.onBuffer feed f).2 := by
  intro b hb
  have hlt : feed < (f b (s.setBuffer feed none)).2.2.cells.size := by
    rw [hsize, size_setBuffer]
    exact lt_size_of_buffer? hb
  exact ⟨_, by rw [onBuffer, hb]; exact buffer?_setBuffer hlt _, hf b _⟩

theorem askOnlyInvariant_bufferExtends (s : Feeds α) : AskOnlyInvariant feed (BufferExtends feed s) where
  note _ h := h
  apart hne f h := h.trans (.of_same (buffer?_modify_of_ne hne f))
  hasNext depth offset h := h.trans <| bufferExtends_onBuffer (fun b _ => b.extends_hasNext offset)
    fun _ _ => Buffer.hasNext_preserves ((sizePreserving_pull (depth + 1)).preserves feed) offset rfl
  bucketFor depth offset h := h.trans <| bufferExtends_onBuffer (fun b _ => b.extends_bucketFor offset)
    fun _ _ => Buffer.bucketFor_preserves ((sizePreserving_pull (depth + 1)).preserves feed) offset rfl

def BuffersPersist (s s' : Feeds α) : Prop := ∀ feed, BufferExtends feed s s'

theorem steps_buffersPersist : Steps (BuffersPersist (α := α)) where
  refl s _ := .refl s
  trans h h' feed := (h feed).trans (h' feed)
  note _ s _ := .refl s

theorem reads_buffersPersist : Reads (BuffersPersist (α := α)) where
  hasNext c s _ := (askOnlyInvariant_bufferExtends s).reads.hasNext c s (.refl s)
  next c s _ := (askOnlyInvariant_bufferExtends s).reads.next c s (.refl s)

theorem allowsSource_buffersPersist (other : Nat) : AllowsSource (BuffersPersist (α := α)) other where
  setSource source s _ := bufferExtends_setSource source s
  count f s _ := bufferExtends_count f s

end Feeds

theorem carries_buffersPersist (left : Nat) : (switches left : Switches α).Carries Feeds.BuffersPersist := by
  refine .switches Feeds.steps_buffersPersist.store (fun left hw other => ?_) left
  refine hw.shutBuffer (Feeds.allowsSource_buffersPersist other) fun s b hb _ feed => ?_
  by_cases hne : other = feed
  · subst hne
    exact .setBuffer hb b.extends_close
  · exact .of_same (Feeds.buffer?_setBuffer_of_ne hne _)

theorem StoreOp.buffersPersist_perform {m : Store α} {d : StoreOp α} (hd : d.bypasses m = false) :
    m.feeds.BuffersPersist (d.perform m).feeds := by
  intro feed b hb
  have hP : Feeds.AskOnlyInvariant feed (Feeds.BufferExtends feed m.feeds) :=
    Feeds.askOnlyInvariant_bufferExtends m.feeds
  have hsource :
    Feeds.AllowsSource (fun s s' => Feeds.BufferExtends feed m.feeds s →
      Feeds.BufferExtends feed m.feeds s') feed :=
    ⟨fun source s h => h.trans (Feeds.bufferExtends_setSource source s),
      fun f s h => h.trans (Feeds.bufferExtends_count f s)⟩
  have hw := hP.carries fun left hw => hw.shutBuffer hsource fun s b hb _ h =>
    h.trans (.setBuffer hb b.extends_close)
  exact askOnlyInvariant_perform hP (fun source s h => h.trans (Feeds.bufferExtends_add source s)) hw
    (.inl hsource)
    (by rw [hb]; rfl) hd (.refl m.feeds) b hb

end Replay
