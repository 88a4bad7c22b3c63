import Replay.Proofs.Accounts.Ending
import Replay.Proofs.Promises.Lasting

/-!
Bucket handles. A handle returned by `bucket_for`, or cached by a cursor, refers to the same bucket for
good. The bucket fills up to its capacity and does not change otherwise, also when the buffer fails or
closes.
-/
namespace Replay

open Store

variable {α β γ : Type}

namespace Cursor

/-- The feed and number of the bucket cached by a cursor. -/
def handle? : Cursor → Option (Nat × Nat)
  | plain feed _ head => head.cached.map (feed, ·)
  | managed _ _ inner => inner.handle?
  | watched _ _ inner => inner.handle?

def SameHandle (c d : Cursor) : Prop := d.handle? = c.handle? ∨ d.handle? = none

theorem SameHandle.trans {c d e : Cursor} (h : c.SameHandle d) (h' : d.SameHandle e) : c.SameHandle e := by
  rcases h' with h' | h'
  · exact h.imp h'.trans h'.trans
  · exact .inr h'

theorem sameHandle_seek {c d : Cursor} {position : Nat} (h : c.seek position = .ok d) : c.SameHandle d := by
  refine .inl ?_
  induction c generalizing d with
  | plain feed provider head =>
    rw [seek, Head.seek] at h
    split at h
    · cases h
    · cases h
      rfl
  | managed janitor released inner ih =>
    rw [seek] at h
    split at h
    · cases h
    · cases hs : inner.seek position with
      | error e => simp [hs, Except.map] at h
      | ok inner' =>
        rw [hs] at h
        cases h
        have hinner := ih hs
        exact hinner
  | watched slot act inner ih =>
    rw [seek] at h
    cases hs : inner.seek position with
    | error e => simp [hs, Except.map] at h
    | ok inner' =>
      rw [hs] at h
      cases h
      have hinner := ih hs
      exact hinner

theorem sameHandle_release (w : Switches α) (c : Cursor) (m : Store α) :
    c.SameHandle ((c.release w).run m).1.2 := by
  induction c generalizing m with
  | plain feed provider head => exact .inr rfl
  | managed janitor released inner ih =>
    rw [release]
    split
    · exact .inl rfl
    · obtain ⟨m', hm'⟩ := Janitor.cursor_releaseCursor w janitor (inner.release w) m
      have hinner := ih m'
      rw [← hm'] at hinner
      exact hinner
  | watched slot act inner ih =>
    rw [release, Call.run_bind]
    split
    · exact .inl rfl
    · exact ih _

theorem sameHandle_close (w : Switches α) (c : Cursor) (m : Store α) :
    c.SameHandle ((c.close w).run m).1 := by
  induction c generalizing m with
  | plain feed provider head => exact .inr rfl
  | managed janitor released inner ih =>
    rw [close]
    split
    · exact .inl rfl
    · obtain ⟨m', hm'⟩ := Janitor.cursor_releaseCursor w janitor (((inner.close w).run m).1.release w)
        ((inner.close w).run m).2
      have hreleased := sameHandle_release w ((inner.close w).run m).1 m'
      rw [← hm'] at hreleased
      exact (ih m).trans hreleased
  | watched slot act inner ih => exact ih m

end Cursor

namespace Feeds

variable {s s' : Feeds α} {h? : Option (Nat × Nat)} {c d : Cursor}

def bucketAt? (s : Feeds α) (held : Nat × Nat) : Option (Bucket α) :=
  (s.buffer? held.1).bind (·.bucket? held.2)

/-- The handle, if any, refers to an existing bucket. -/
def Holds (s : Feeds α) (h? : Option (Nat × Nat)) : Prop := ∀ held, h? = some held → (s.bucketAt? held).isSome

theorem Holds.none (s : Feeds α) : s.Holds none := nofun

theorem BuffersPersist.bucketAt? (h : s.BuffersPersist s') {held : Nat × Nat} {k : Bucket α}
    (hk : s.bucketAt? held = some k) : ∃ k', s'.bucketAt? held = some k' ∧ k.Grows k' := by
  obtain ⟨b, hb, hk⟩ := Option.bind_eq_some_iff.mp hk
  obtain ⟨b', hb', hextends⟩ := h held.1 b hb
  obtain ⟨k', hk', hgrows⟩ := hextends.bucket held.2 k hk
  exact ⟨k', Option.bind_eq_some_iff.mpr ⟨b', hb', hk'⟩, hgrows⟩

theorem Holds.buffersPersist (h : s.Holds h?) (hs : s.BuffersPersist s') : s'.Holds h? := by
  intro held hheld
  obtain ⟨k, hk⟩ := Option.isSome_iff_exists.mp (h held hheld)
  obtain ⟨k', hk', -⟩ := hs.bucketAt? hk
  exact Option.isSome_of_eq_some hk'

theorem Holds.sameHandle (h : s.Holds c.handle?) (hd : c.SameHandle d) : s.Holds d.handle? := by
  intro held hheld
  rcases hd with hd | hd
  · exact h held (hd.symm.trans hheld)
  · cases hd.symm.trans hheld

end Feeds

namespace Cursor

open Feeds

variable {draw : Draw α} {s : Feeds α} {c : Cursor}

theorem holds_nextBy (hd : SizePreserving draw) (h : s.Holds c.handle?) :
    (c.nextBy draw s).2.2.Holds (c.nextBy draw s).2.1.handle? := by
  induction c with
  | plain feed provider head =>
    unfold nextBy
    cases hb : s.buffer? feed with
    | none => exact h
    | some b =>
      have hholding : head.Holding b := by
        intro held hheld
        have hsome := h (feed, held) (by rw [handle?, hheld, Option.map_some])
        rw [bucketAt?, hb, Option.bind_some] at hsome
        exact Option.isSome_iff_exists.mp hsome
      have hlt : feed < (head.next (tap draw feed) b (s.setBuffer feed none)).2.2.2.cells.size := by
        have hsize : (s.setBuffer feed none).cells.size = s.cells.size := size_setBuffer ..
        rw [Head.next_preserves (I := fun t : Feeds α => t.cells.size =
          s.cells.size) (hd.preserves feed) head hsize]
        exact lt_size_of_buffer? hb
      intro held hheld
      obtain ⟨number, hnumber, rfl⟩ := Option.map_eq_some_iff.mp hheld
      obtain ⟨k, hk⟩ := head.extends_next.2 hholding number hnumber
      exact Option.isSome_of_eq_some (Option.bind_eq_some_iff.mpr ⟨_, buffer?_setBuffer hlt _, hk⟩)
  | managed janitor released inner ih =>
    unfold nextBy
    split
    · exact h
    · exact ih h
  | watched slot act inner ih => exact ih h

theorem holds_next (h : s.Holds c.handle?) : (c.next s).2.2.Holds (c.next s).2.1.handle? :=
  holds_nextBy sizePreserving_draw h

theorem holds_reader : (Cursor.reader (α := α)).Preserves fun place => place.2.Holds place.1.handle? := by
  rintro ⟨c, s⟩ h
  exact c.stepBy_preserves (P := fun place => place.2.Holds place.1.handle?)
    (h.buffersPersist (reads_buffersPersist.hasNext c s)) fun s' hs' => holds_next hs'

end Cursor

theorem Feeds.holds_bucketFor {s s' : Feeds α} {feed o number : Nat}
    (h : s.onBuffer feed (Buffer.bucketFor (tap draw feed) o) = (.ok (some number), s')) :
    s'.Holds (some (feed, number)) := by
  rintro _ ⟨⟩
  cases hb : s.buffer? feed with
  | none =>
    rw [onBuffer, hb] at h
    cases h
  | some b =>
    have hsize : ((b.bucketFor (tap draw feed) o) (s.setBuffer feed none)).2.2.cells.size = s.cells.size :=
      Buffer.bucketFor_preserves (I := fun t : Feeds α => t.cells.size = s.cells.size)
        (sizePreserving_draw.preserves feed) o (size_setBuffer ..)
    simp only [onBuffer, hb] at h
    rcases hr : b.bucketFor (tap draw feed) o (s.setBuffer feed none) with ⟨found, b', t⟩
    rw [hr] at h hsize
    cases h
    obtain ⟨k, hk⟩ := Buffer.bucket?_of_bucketFor hr
    have hlt : feed < t.cells.size := hsize ▸ lt_size_of_buffer? hb
    exact Option.isSome_of_eq_some (Option.bind_eq_some_iff.mpr ⟨b', buffer?_setBuffer hlt _, hk⟩)

theorem CursorOp.holds_perform {m : Store α} {c : Cursor} (h : m.feeds.Holds c.handle?) (t : CursorOp) :
    ((t.perform c).run m).2.feeds.Holds ((t.perform c).run m).1.2.handle? := by
  have hpersist : m.feeds.BuffersPersist ((t.perform c).run m).2.feeds :=
    t.within Feeds.reads_buffersPersist carries_buffersPersist c m
  have hreader := Cursor.holds_reader (α := α)
  cases t with
  | hasNext => exact h.buffersPersist hpersist
  | next => exact Cursor.holds_next h
  | seek position =>
    rw [perform]
    cases hs : c.seek position with
    | ok d => exact h.sameHandle (Cursor.sameHandle_seek hs)
    | error e => exact h
  | release => exact (h.buffersPersist hpersist).sameHandle (c.sameHandle_release _ m)
  | close => exact (h.buffersPersist hpersist).sameHandle (c.sameHandle_close _ m)
  | read room => exact hreader.fill room h
  | items count => exact hreader.take count h
  | drain most => exact hreader.drain most #[] h

namespace Store.Call

/-- The call returns a cursor whose handle is valid. -/
def ReturnsHeld (h? : Option (Nat × Nat)) (f : Call α (Outcome StreamError Cursor)) : Prop :=
  ∀ m : Store α, m.feeds.Holds h? → ∀ d, (f.run m).1 = .ok d → (f.run m).2.feeds.Holds d.handle?

variable {h? : Option (Nat × Nat)} {f : Call α (Outcome StreamError Cursor)}

theorem ReturnsHeld.after {g : Call α β} {k : β → Call α (Outcome StreamError Cursor)}
    (hg : g.Within (OnFeeds Feeds.BuffersPersist)) (hk : ∀ x, (k x).ReturnsHeld h?) :
    (g >>= k).ReturnsHeld h? :=
  fun m h d hd => hk _ _ (h.buffersPersist (hg m)) d hd

theorem ReturnsHeld.error (stop : Stop StreamError) : (pure (.error stop) : Call α _).ReturnsHeld h? :=
  fun _ _ _ hd => nomatch hd

theorem ReturnsHeld.ok {d : Cursor} (hd : d.handle? = h?) : (pure (.ok d) : Call α _).ReturnsHeld h? := by
  rintro m h _ ⟨⟩
  exact fun held hheld => h held (hd.symm.trans hheld)

theorem ReturnsHeld.bind {k : Outcome StreamError Cursor → Call α (Outcome StreamError Cursor)}
    (hf : f.ReturnsHeld h?)
    (hwithin : f.Within (OnFeeds Feeds.BuffersPersist)) (herror : ∀ stop, (k (.error stop)).ReturnsHeld h?)
    (hok : ∀ d, (k (.ok d)).ReturnsHeld d.handle?) : (f >>= k).ReturnsHeld h? := by
  intro m h d hd
  rw [run_bind] at hd ⊢
  have hhanded := hf m h
  have hstill := h.buffersPersist (hwithin m)
  rcases hr : f.run m with ⟨stop | e, m'⟩
  · rw [hr] at hd hstill
    exact herror stop m' hstill d hd
  · rw [hr] at hd hhanded
    exact hok e m' (hhanded e rfl) d hd

end Store.Call

theorem Cursor.holds_skip {m : Store α} {c : Cursor} (h : m.feeds.Holds c.handle?) (count : Nat) :
    ((c.skip count).run m).2.feeds.Holds ((c.skip count).run m).1.2.handle? := by
  induction count generalizing c m with
  | zero => exact h
  | succ count ih =>
    have hread : ((c.read (α := α)).run m).2.feeds.Holds ((c.read (α := α)).run m).1.2.handle? := holds_next h
    rw [skip, Call.run_bind]
    rcases hr : (c.read (α := α)).run m with ⟨⟨(e | p) | a, c'⟩, m'⟩
    · rw [hr] at hread
      exact ih hread
    · rw [hr] at hread
      exact hread
    · rw [hr] at hread
      exact ih hread

section opening

variable {left : Nat}

theorem Hook.returnsHeld_apply (j : Janitor) (c : Cursor) (hook : Hook) :
    (hook.apply (switches left : Switches α) j c).ReturnsHeld c.handle? := by
  have hw := carries_buffersPersist (α := α) left
  cases hook with
  | plain => exact .ok rfl
  | raw => exact .ok rfl
  | doubled => exact .ok rfl
  | seek position =>
    intro m h d hd
    cases hd
    change m.feeds.Holds
      (((Cursor.managed j false c).seek position).toOption.getD (.managed j false c)).handle?
    cases hs : (Cursor.managed j false c).seek position with
    | ok d => exact Feeds.Holds.sameHandle (c := .managed j false c) h (Cursor.sameHandle_seek hs)
    | error e => exact h
  | skip count =>
    intro m h d hd
    have hskipped := Cursor.holds_skip (c := .managed j false c) h count
    rw [apply, Call.run_bind] at hd ⊢
    rcases hr : ((Cursor.managed j false c).skip count).run m with ⟨⟨stop | _, c'⟩, m'⟩
    · rw [hr] at hd
      cases hd
    · rw [hr] at hd hskipped
      cases hd
      exact hskipped
  | released =>
    intro m h d hd
    have hstill := Feeds.Holds.buffersPersist h (hw.releaseLayers (.managed j false c) m)
    have hreleased := Cursor.sameHandle_release (switches left) (.managed j false c) m
    rw [apply, Call.run_bind] at hd ⊢
    rcases hr : ((Cursor.managed j false c).release (switches left)).run m with ⟨⟨stop | _, c'⟩, m'⟩
    · rw [hr] at hd
      cases hd
    · rw [hr] at hd hstill hreleased
      cases hd
      exact Feeds.Holds.sameHandle (c := .managed j false c) hstill hreleased

theorem Provider.returnsHeld_openCursor (p : Provider) :
    (p.openCursor (switches left : Switches α)).ReturnsHeld none := by
  have hw := carries_buffersPersist (α := α) left
  have hwithin := fun p : Provider => hw.openCursor Feeds.reads_buffersPersist p
  induction p with
  | base slot id feed =>
    refine .after hw.get fun m => ?_
    split
    · exact .error _
    · exact .ok rfl
  | managed slot statistics hook inner ih =>
    refine .after hw.get fun m => ?_
    split
    · exact .error _
    · refine .bind ih (hwithin inner) (fun stop => .error stop) fun c => ?_
      refine .after (hw.onJanitor _ (fun _ h => h) fun _ h => h) fun _ => ?_
      refine .after (hw.onStatistics _ _) fun _ => ?_
      refine .after hw.get fun m => ?_
      split
      · refine .after (hw.onStatistics _ _) fun _ => ?_
        refine .after (hw.releaseCursor _ (hw.releaseLayers c)) fun x => ?_
        refine .after (hw.dropLayers _ x.2) fun _ => ?_
        exact .error _
      · exact hook.returnsHeld_apply _ c
  | scripted slot script inner ih =>
    refine .after hw.get fun m => ?_
    refine .after (hw.onScript _ fun t ending => by cases ending <;> exact le_rfl) fun _ => ?_
    refine .after (hw.perform slot _) fun x => ?_
    cases x with
    | error stop => exact .error _
    | ok =>
      refine .bind ih (hwithin inner) (fun stop => .error stop) fun c => ?_
      refine .after (hw.perform slot _) fun x => ?_
      cases x with
      | error stop => exact .after (hw.dropLayers _ c) fun _ => .error _
      | ok =>
        dsimp only
        split
        · exact .ok rfl
        · exact .ok rfl

end opening

/-- The bucket `k` at a later point. -/
structure Bucket.Stays (k k' : Bucket α) : Prop where
  index : k'.index = k.index
  capacity : k'.capacity = k.capacity
  filled : k.filled ≤ k'.filled ∧ k'.filled ≤ k'.capacity
  kept : ∀ item a, k.get? item = some a → k'.get? item = some a
  shown : ∀ item, (k'.get? item).isSome ↔ item < k'.filled
  full : k.filled = k.capacity → k' = k

/-- The bucket behind a handle holds what the buffer has stored there, and is the published one while
the buffer is open. -/
structure Buffer.Shows (b : Buffer α) (held : Nat) (k : Bucket α) : Prop where
  listed : b.closed = false → b.published[k.index]? = some held
  item : ∀ offset item, b.layout.locate offset = some ⟨k.index, item⟩ → k.get? item = b.at? offset
  reached : ∀ offset item, b.layout.locate offset = some ⟨k.index, item⟩ →
    ((k.get? item).isSome ↔ offset < b.consumed)

theorem Buffer.Consistent.shows {b : Buffer α} {held : Nat} {k : Bucket α} (h : b.Consistent)
    (hk : b.bucket? held = some k) : b.Shows held k := by
  obtain ⟨b₀, got, hsound, hb⟩ := h
  have hsame : b.bucket? held = b₀.bucket? held ∧ b.layout = b₀.layout ∧ b.consumed = b₀.consumed := by
    rcases hb with rfl | rfl
    · exact ⟨rfl, rfl, rfl⟩
    · exact ⟨rfl, rfl, rfl⟩
  obtain ⟨hbucket, hlayout, hconsumed⟩ := hsame
  have hk₀ := hbucket.symm.trans hk
  have hlt := lt_size_of_bucket? hk₀
  have hcut : b₀.layout.cut (got.take b₀.consumed) held = k :=
    Option.some.inj ((hsound.holds.bucket held hlt).symm.trans hk₀)
  have hindex : k.index = held := hcut ▸ rfl
  refine ⟨fun hopen => ?_, fun offset item hp => ?_, fun offset item hp => ?_⟩
  · rcases hb with rfl | rfl
    · rw [hsound.listed.published, hindex, Array.getElem?_range, if_pos hlt]
    · cases hopen
  · rw [at?, hp, Option.bind_some, item?, hindex, hk, Option.bind_some]
  · rw [hlayout, hindex] at hp
    obtain ⟨hitem, rfl⟩ := Layout.locate_eq_some_iff.mp hp
    have hlength := hsound.holds.consumed
    rw [Bucket.isSome_get?, ← hcut, Layout.filled_cut, hconsumed]
    dsimp only at hitem ⊢
    omega

/-- Operations of readers, interleaved with any operation on the store. -/
inductive ReaderOp (α : Type) where
  | openCursor (p : Provider)
  | cursorOp (cursor : Nat) (cursorOp : CursorOp)
  | bucketFor (feed offset : Nat)
  | aside (d : StoreOp α)

/-- The cursors and bucket handles given out so far. -/
structure Readers (α : Type) where
  store : Store α := {}
  cursors : List Cursor := []
  buckets : List (Nat × Nat) := []

namespace Readers

/-- Operations on a source that a buffer was made over are refused to anyone else. -/
def perform (r : Readers α) : ReaderOp α → Readers α
  | .openCursor p =>
    let (made, store) := (withSwitches fun w => p.openCursor w).run r.store
    { r with store, cursors := r.cursors ++ made.toOption.toList }
  | .cursorOp i t =>
    match r.cursors[i]? with
    | none => r
    | some c =>
      let ((_, c), store) := (t.perform c).run r.store
      { r with store, cursors := r.cursors.set i c }
  | .bucketFor feed offset =>
    let (found, store) :=
      (onFeeds (Feeds.onBuffer feed (Buffer.bucketFor (Feeds.tap Feeds.draw feed) offset))).run r.store
    { r with store, buckets := r.buckets ++ (found.toOption.join.map (feed, ·)).toList }
  | .aside d => if d.bypasses r.store then r else { r with store := d.perform r.store }

def run (r : Readers α) (ps : List (ReaderOp α)) : Readers α := ps.foldl perform r

/-- Every handle held by a reader or cached by a cursor. -/
def handles (r : Readers α) : List (Nat × Nat) := r.buckets ++ r.cursors.filterMap Cursor.handle?

variable {r : Readers α}

theorem store_perform (r : Readers α) (p : ReaderOp α) : (r.perform p).store = r.store ∨
    ∃ d : StoreOp α, d.bypasses r.store = false ∧ (r.perform p).store = d.perform r.store := by
  cases p with
  | openCursor p => exact .inr ⟨.openCursor p, rfl, rfl⟩
  | cursorOp i t =>
    rw [perform]
    cases r.cursors[i]? with
    | none => exact .inl rfl
    | some c => exact .inr ⟨.cursorOp c t, rfl, rfl⟩
  | bucketFor feed offset => exact .inr ⟨.bucketFor feed offset, rfl, rfl⟩
  | aside d =>
    rw [perform]
    split
    · exact .inl rfl
    · rename_i hd
      exact .inr ⟨d, Bool.eq_false_iff.mpr hd, rfl⟩

theorem buffersPersist_perform (r : Readers α) (p : ReaderOp α) :
    r.store.feeds.BuffersPersist (r.perform p).store.feeds := by
  rcases r.store_perform p with hsame | ⟨d, hd, hsame⟩
  · rw [hsame]
    exact Feeds.steps_buffersPersist.refl _
  · rw [hsame]
    exact StoreOp.buffersPersist_perform hd

theorem consistent_perform (h : r.store.feeds.Consistent) (p : ReaderOp α) :
    (r.perform p).store.feeds.Consistent := by
  rcases r.store_perform p with hsame | ⟨d, -, hsame⟩
  · rwa [hsame]
  · rw [hsame]
    exact d.preservesConsistent_perform r.store h

def Sound (r : Readers α) : Prop := ∀ held ∈ r.handles, r.store.feeds.Holds (some held)

theorem Sound.bucket (h : r.Sound) {held : Nat × Nat} (hheld : held ∈ r.buckets) :
    r.store.feeds.Holds (some held) := h held (List.mem_append_left _ hheld)

theorem Sound.cursor (h : r.Sound) {c : Cursor} (hc : c ∈ r.cursors) : r.store.feeds.Holds c.handle? :=
  fun held hheld => h held (List.mem_append_right _ (List.mem_filterMap.mpr ⟨c, hc, hheld⟩)) held rfl

theorem Sound.of_parts (hbuckets : ∀ held ∈ r.buckets, r.store.feeds.Holds (some held))
    (hcursors : ∀ c ∈ r.cursors, r.store.feeds.Holds c.handle?) : r.Sound := by
  intro held hheld
  rcases List.mem_append.mp hheld with hheld | hheld
  · exact hbuckets held hheld
  · obtain ⟨c, hc, hhandle⟩ := List.mem_filterMap.mp hheld
    exact hhandle ▸ hcursors c hc

theorem Sound.perform (h : r.Sound) (p : ReaderOp α) : (r.perform p).Sound := by
  have hstill := r.buffersPersist_perform p
  cases p with
  | openCursor p =>
    refine .of_parts (fun held hheld => (h.bucket hheld).buffersPersist hstill) fun c hc => ?_
    rcases List.mem_append.mp hc with hc | hc
    · exact (h.cursor hc).buffersPersist hstill
    · refine p.returnsHeld_openCursor r.store (.none _) c ?_
      change c ∈ ((p.openCursor (switches r.store.endings)).run r.store).1.toOption.toList at hc
      cases hr : ((p.openCursor (switches r.store.endings)).run r.store).1 with
      | error stop =>
        rw [hr] at hc
        cases hc
      | ok d =>
        rw [hr] at hc
        exact congrArg Except.ok (List.mem_singleton.mp hc).symm
  | cursorOp i t =>
    rw [Readers.perform] at hstill ⊢
    cases hi : r.cursors[i]? with
    | none => exact h
    | some c =>
      rw [hi] at hstill
      refine .of_parts (fun held hheld => (h.bucket hheld).buffersPersist hstill) fun d hd => ?_
      rcases List.mem_or_eq_of_mem_set hd with hd | rfl
      · exact (h.cursor hd).buffersPersist hstill
      · exact CursorOp.holds_perform (h.cursor (List.mem_of_getElem? hi)) t
  | bucketFor feed offset =>
    refine .of_parts (fun held hheld => ?_) fun c hc => (h.cursor hc).buffersPersist hstill
    rcases List.mem_append.mp hheld with hheld | hheld
    · exact (h.bucket hheld).buffersPersist hstill
    · obtain ⟨number, hnumber, rfl⟩ := Option.map_eq_some_iff.mp (Option.mem_toList.mp hheld)
      refine Feeds.holds_bucketFor (s := r.store.feeds) (o := offset) (Prod.ext ?_ rfl)
      change (r.store.feeds.onBuffer feed
        (Buffer.bucketFor (Feeds.tap Feeds.draw feed) offset)).1.toOption.join = some number at hnumber
      generalize (r.store.feeds.onBuffer feed
        (Buffer.bucketFor (Feeds.tap Feeds.draw feed) offset)).1 = found at hnumber ⊢
      rcases found with stop | found
      · cases hnumber
      · exact congrArg Except.ok hnumber
  | aside d =>
    rw [Readers.perform] at hstill ⊢
    split
    · exact h
    · rename_i hd
      rw [if_neg hd] at hstill
      exact .of_parts (fun held hheld => (h.bucket hheld).buffersPersist hstill)
        fun c hc => (h.cursor hc).buffersPersist hstill

theorem Sound.run (h : r.Sound) (ps : List (ReaderOp α)) : (r.run ps).Sound := by
  induction ps generalizing r with
  | nil => exact h
  | cons p ps ih => exact ih (h.perform p)

theorem consistent_run (h : r.store.feeds.Consistent) (ps : List (ReaderOp α)) :
    (r.run ps).store.feeds.Consistent := by
  induction ps generalizing r with
  | nil => exact h
  | cons p ps ih => exact ih (consistent_perform h p)

theorem buffersPersist_run (r : Readers α) (ps : List (ReaderOp α)) :
    r.store.feeds.BuffersPersist (r.run ps).store.feeds := by
  induction ps generalizing r with
  | nil => exact Feeds.steps_buffersPersist.refl _
  | cons p ps ih => exact Feeds.steps_buffersPersist.trans (r.buffersPersist_perform p) (ih (r.perform p))

/-- Every handle held at some point stays valid whatever is done later. Its bucket keeps its items,
stays within its capacity and, once full, does not change; while the buffer is open it is the bucket
published there. -/
theorem buckets_stay (before later : List (ReaderOp α)) :
    let now := ({} : Readers α).run before
    let then' := now.run later
    (∀ held ∈ now.handles, ∃ k, now.store.feeds.bucketAt? held = some k) ∧
    (∀ held k, now.store.feeds.bucketAt? held = some k →
      ∃ k', then'.store.feeds.bucketAt? held = some k' ∧ k.Stays k') ∧
    ∀ feed b, now.store.feeds.buffer? feed = some b → ∃ b', then'.store.feeds.buffer? feed = some b' ∧
      (b'.closed = false → b.closed = false ∧ b.published.toList <+: b'.published.toList) ∧
      ∀ held k', b'.bucket? held = some k' → b'.Shows held k' := by
  intro now then'
  have hsound : now.Sound := Sound.run (fun held hheld => absurd hheld List.not_mem_nil) before
  have hconsistent : now.store.feeds.Consistent :=
    consistent_run (fun feed b hb => absurd hb (by simp [Feeds.buffer?])) before
  have hlater : then'.store.feeds.Consistent := consistent_run hconsistent later
  have hpersist := now.buffersPersist_run later
  refine ⟨fun held hheld => Option.isSome_iff_exists.mp (hsound held hheld held rfl), fun held k hk => ?_,
    fun feed b hb => ?_⟩
  · obtain ⟨k', hk', hgrows⟩ := hpersist.bucketAt? hk
    obtain ⟨b', hb', hbucket⟩ := Option.bind_eq_some_iff.mp hk'
    exact ⟨k', hk', hgrows.index, hgrows.capacity, ⟨hgrows.filled_le,
      (hlater held.1 b' hb').filled_le hbucket⟩,
      fun _ _ => hgrows.get?, fun _ => Bucket.isSome_get?, fun hfull => hgrows.full (beq_iff_eq.mpr hfull)⟩
  · obtain ⟨b', hb', hextends⟩ := hpersist feed b hb
    exact ⟨b', hb', hextends.published, fun held k' hk' => (hlater feed b' hb').shows hk'⟩

/-- A cursor reads the first of two items, and the bucket of that item is asked for. -/
def readingOne : List (ReaderOp Nat) :=
  [.aside (.addSource (.playing #[.item 1, .item 2] none (.ok ()))),
    .aside (.addBuffer ⟨2, 2, .unbounded, .owned⟩ 0), .aside (.addBase 0), .openCursor (.base 0 ⟨0⟩ 0),
    .cursorOp 0 .next, .bucketFor 0 0]

theorem buckets_stay_filling :
    let now := ({} : Readers Nat).run readingOne
    let later := now.run [.cursorOp 0 .next, .cursorOp 0 .next, .aside (.closeBuffer 0)]
    now.handles = [(0, 0), (0, 0)] ∧ ∃ k k', now.store.feeds.bucketAt? (0, 0) = some k ∧
      later.store.feeds.bucketAt? (0, 0) = some k' ∧ k.Stays k' ∧ k.filled = 1 ∧ k'.items = #[1, 2] := by
  have hnow : (({} : Readers Nat).run readingOne).store.feeds.bucketAt? (0, 0) = some ⟨0, 2, #[1]⟩ := rfl
  have hlater : ((({} : Readers Nat).run readingOne).run
      [.cursorOp 0 .next, .cursorOp 0 .next, .aside (.closeBuffer 0)]).store.feeds.bucketAt? (0, 0) =
        some ⟨0, 2, #[1, 2]⟩ := rfl
  obtain ⟨-, hstays, -⟩ :=
    buckets_stay readingOne [.cursorOp 0 .next, .cursorOp 0 .next, .aside (.closeBuffer 0)]
  obtain ⟨k', hk', hstays⟩ := hstays _ _ hnow
  obtain rfl := Option.some.inj (hk'.symm.trans hlater)
  exact ⟨rfl, _, _, hnow, hlater, hstays, rfl, rfl⟩

end Readers
end Replay
