import Replay.Proofs.Buffer.Answers
import Replay.Proofs.Shared.SharedOps

/-!
The state of a shared buffer after any run is determined by the number of pulls and whether it was
closed.
-/
namespace Replay

open Store

variable {α : Type}

namespace Feeds

variable {s : Feeds α} {feed : Nat}

theorem setBuffer_setBuffer {b : Buffer α} (h : s.buffer? feed = some b) :
    (s.setBuffer feed none).setBuffer feed (some b) = s := by
  obtain ⟨cells, log⟩ := s
  simp only [setBuffer, modify, mk.injEq, and_true]
  apply Array.ext_getElem?
  intro i
  rw [Array.getElem?_modify, Array.getElem?_modify]
  split
  · rename_i hi
    subst hi
    simp only [buffer?, Option.bind_eq_some_iff] at h
    obtain ⟨c, hc, hb⟩ := h
    simp [hc, ← hb]
  · rfl

end Feeds

/-- The number of pulls, and whether the buffer was closed. -/
structure Progress where
  closed : Bool
  count : Nat

/-- Reading pulls only while the buffer is open, and does not close it. -/
instance : Preorder Progress where
  le k l := l.closed = k.closed ∧ k.count ≤ l.count ∧ (k.closed → l.count = k.count)
  le_refl k := ⟨rfl, le_rfl, fun _ => rfl⟩
  le_trans k l m h h' :=
    ⟨h'.1.trans h.1, h.2.1.trans h'.2.1,
      fun hk => (h'.2.2 (h.1.trans hk)).trans (h.2.2 hk)⟩

namespace Progress

/-- `us` may take a buffer from progress `k` to progress `l`. -/
structure ReachedBy (k : Progress) (us : List SharedOp) (l : Progress) : Prop where
  count_le : k.count ≤ l.count
  closed_iff : l.closed ↔ k.closed ∨ .close ∈ us
  eq_of_closed : k.closed → l = k

variable {k l m : Progress}

theorem ReachedBy.nil (k : Progress) : k.ReachedBy [] k := ⟨le_rfl, by simp, fun _ => rfl⟩

theorem ReachedBy.cons {u : SharedOp} {us : List SharedOp} (h : k.ReachedBy [u] l) (h' : l.ReachedBy us m) :
    k.ReachedBy (u :: us) m := by
  refine ⟨h.count_le.trans h'.count_le, ?_, ?_⟩
  · rw [h'.closed_iff, h.closed_iff, List.mem_singleton, List.mem_cons, or_assoc]
  · intro hk
    obtain rfl := h.eq_of_closed hk
    exact h'.eq_of_closed hk

theorem ReachedBy.of_le {u : SharedOp} (h : k ≤ l) (hu : u ≠ .close) : k.ReachedBy [u] l := by
  obtain ⟨closed, count⟩ := l
  obtain ⟨rfl, hle, heq⟩ := h
  refine ⟨hle, by simp [hu.symm], fun hk => ?_⟩
  obtain rfl := heq hk
  rfl

theorem ReachedBy.close (k : Progress) : k.ReachedBy [.close] ⟨true, k.count⟩ := by
  refine ⟨le_rfl, by simp, fun hk => ?_⟩
  rw [← hk]

end Progress

namespace Supply

/-- The feed after `count` pulls with its buffer taken out, and the events logged since. -/
def Feeding (t : Supply α) (feed : Nat) (base : Array Event) (s : Feeds α) (count : Nat)
    (es : List Event) : Prop :=
  s.cells[feed]? = some ⟨some (t.source count), { pulls := count }, none⟩ ∧
    s.log = base ++ es.toArray

theorem plays (t : Supply α) (feed : Nat) (base : Array Event) :
    (Feeds.tap Feeds.draw feed).Plays t.outcomes (t.Feeding feed base) where
  pull := by
    rintro s count es ⟨hcell, hlog⟩
    have hlt : feed < s.cells.size := (Array.getElem?_eq_some_iff.mp hcell).1
    obtain ⟨depth, hdepth⟩ := Nat.exists_eq_add_one_of_ne_zero (Nat.ne_of_gt (Nat.zero_lt_of_lt hlt))
    have hsource : s.source? feed = some (t.source count) := by
      simp [Feeds.source?, hcell]
    simp only [Feeds.tap, Feeds.draw, hdepth, Feeds.pull, hsource, source, Feeds.pullSource,
      Feeds.count, Feeds.setSource]
    refine ⟨trivial, ?_, hlog⟩
    rw [Feeds.cell_modify (Feeds.cell_modify (Feeds.cell_modify hcell _) _)]
    rfl
  note := by
    rintro s count es e ⟨hcell, hlog⟩
    refine ⟨hcell, ?_⟩
    simp [Feeds.tap, Feeds.note, hlog]

def kept (t : Supply α) (k : Progress) : Buffer α :=
  if k.closed then (t.buffer k.count).close else t.buffer k.count

def closes (t : Supply α) : Nat :=
  match t.config.ownership with
  | .owned => 1
  | .borrowed => 0

/-- The feed at progress `k`. A closed buffer has no source. -/
def cell (t : Supply α) (k : Progress) : Feed α :=
  { source := if k.closed then none else some (t.source k.count)
    tally := { pulls := k.count, closes := if k.closed then t.closes else 0 }
    buffer := some (t.kept k) }

def events (t : Supply α) (k : Progress) : List Event :=
  t.start.events t.outcomes k.count ++
    if k.closed then [.bufferClosed (t.buffer k.count).consumed t.config.ownership] else []

structure AtProgress (t : Supply α) (feed : Nat) (base : Array Event) (s : Feeds α) (k : Progress) :
    Prop where
  pulls : t.start.Pulls t.outcomes k.count
  cell : s.cells[feed]? = some (t.cell k)
  log : s.log = base ++ (t.events k).toArray

/-- The result of asking about an offset, and the progress after it. -/
structure Answers (t : Supply α) (feed : Nat) (s : Feeds α) (k : Progress) (offset : Nat) (l : Progress)
    (r : Outcome StreamError Bool) (s' : Feeds α) : Prop where
  asked : k.closed = false →
    l.closed = false ∧ t.start.Asked t.outcomes k.count offset l.count r
  shut : k.closed → l = k ∧ s' = s ∧ r = .raise ((t.buffer k.count).refusal.getD .bufferClosed)
  hasNext : s.onBuffer feed (Buffer.hasNext (Feeds.tap Feeds.draw feed) offset) = (r, s')
  bucketFor : s.onBuffer feed (Buffer.bucketFor (Feeds.tap Feeds.draw feed) offset) =
    (Buffer.heldAt t.layout offset r, s')
  next : ∀ id (h : Head), h.closed = false → h.position = offset →
    ∃ h' : Head, h'.closed = false ∧ h'.position = (if r = .ok true then offset + 1 else offset) ∧
      (Cursor.plain feed id h).nextBy Feeds.draw s =
        (Head.taken (t.items l.count) offset r, .plain feed id h', s')

variable {t : Supply α} {feed : Nat} {base : Array Event} {s : Feeds α} {k : Progress} {count : Nat}

theorem sound_buffer (hvalid : t.config.validate = .ok ())
    (h : t.start.Pulls t.outcomes count) : (t.buffer count).Sound (t.items count) :=
  (Buffer.sound_after (sound_start hvalid) h).2

theorem terms_buffer (hvalid : t.config.validate = .ok ())
    (h : t.start.Pulls t.outcomes count) : (t.buffer count).terms = t.start.terms :=
  (Buffer.sound_after (sound_start hvalid) h).1

theorem layout_buffer (hvalid : t.config.validate = .ok ())
    (h : t.start.Pulls t.outcomes count) : (t.buffer count).layout = t.layout :=
  congrArg Prod.fst (terms_buffer hvalid h)

theorem limit_buffer (hvalid : t.config.validate = .ok ())
    (h : t.start.Pulls t.outcomes count) : (t.buffer count).limit = t.config.limit :=
  congrArg (fun terms => terms.2.1) (terms_buffer hvalid h)

theorem ownership_buffer (hvalid : t.config.validate = .ok ())
    (h : t.start.Pulls t.outcomes count) : (t.buffer count).ownership = t.config.ownership :=
  congrArg (fun terms => terms.2.2.1) (terms_buffer hvalid h)

theorem layout_kept (hvalid : t.config.validate = .ok ())
    (h : t.start.Pulls t.outcomes k.count) : (t.kept k).layout = t.layout := by
  unfold kept
  split
  · exact layout_buffer hvalid h
  · exact layout_buffer hvalid h

theorem AtProgress.buffer?_eq (h : t.AtProgress feed base s k) : s.buffer? feed = some (t.kept k) :=
  Feeds.buffer?_eq h.cell

theorem AtProgress.feeding (h : t.AtProgress feed base s ⟨false, count⟩) :
    t.Feeding feed base (s.setBuffer feed none) count (t.start.events t.outcomes count) := by
  refine ⟨?_, ?_⟩
  · rw [Feeds.setBuffer, Feeds.cell_modify h.cell]
    rfl
  · simpa [Feeds.setBuffer, events] using h.log

theorem Feeding.atProgress (hpulls : t.start.Pulls t.outcomes count)
    (h : t.Feeding feed base s count (t.start.events t.outcomes count)) :
    t.AtProgress feed base (s.setBuffer feed (some (t.buffer count))) ⟨false, count⟩ := by
  refine ⟨hpulls, ?_, ?_⟩
  · rw [Feeds.setBuffer, Feeds.cell_modify h.1]
    rfl
  · simpa [Feeds.setBuffer, events] using h.2

theorem AtProgress.answers_closed (h : t.AtProgress feed base s ⟨true, count⟩) (offset : Nat) :
    t.Answers feed s ⟨true, count⟩ offset ⟨true, count⟩
      (.raise ((t.buffer count).refusal.getD .bufferClosed)) s := by
  have hb : s.buffer? feed = some (t.buffer count).close := h.buffer?_eq
  have hrefusal := (t.buffer count).refusal_close
  have hsame := Feeds.setBuffer_setBuffer hb
  refine ⟨nofun, fun _ => ⟨rfl, rfl, rfl⟩, ?_, ?_, ?_⟩
  · simp only [Feeds.onBuffer, hb, Buffer.hasNext_of_refusal hrefusal, hsame]
  · simp only [Feeds.onBuffer, hb, Buffer.bucketFor_of_refusal hrefusal, hsame]
    rfl
  · intro id head hopen hposition
    refine ⟨head, hopen, hposition, ?_⟩
    simp only [Cursor.nextBy, hb, Head.next_of_refusal hopen hrefusal, hsame]
    rfl

theorem AtProgress.answers_open (hvalid : t.config.validate = .ok ())
    (h : t.AtProgress feed base s ⟨false, count⟩) (offset : Nat) :
    ∃ l r s', t.AtProgress feed base s' l ∧ t.Answers feed s ⟨false, count⟩ offset l r s' := by
  have hb : s.buffer? feed = some (t.buffer count) := h.buffer?_eq
  have hstart := sound_start hvalid
  obtain ⟨more, s', r, hnext, hat, hasked⟩ :=
    Buffer.hasNext_after (t.plays feed base) hstart offset h.pulls h.feeding
  refine ⟨⟨false, more⟩, r, s'.setBuffer feed (some (t.buffer more)),
    Feeding.atProgress hasked.pulls hat, fun _ => ⟨rfl, hasked⟩, nofun, ?_, ?_, ?_⟩
  · simp only [Feeds.onBuffer, hb]
    rw [buffer, hnext]
    rfl
  · simp only [Feeds.onBuffer, hb]
    rw [buffer, Buffer.bucketFor_after hstart hasked hnext]
    rfl
  · rintro id head hopen rfl
    obtain ⟨head', hopen', hposition, htaken⟩ :=
      Head.next_after hstart hopen h.pulls hasked hnext
    refine ⟨head', hopen', hposition, ?_⟩
    simp only [Cursor.nextBy, hb]
    rw [buffer, htaken]
    rfl

theorem AtProgress.answers (hvalid : t.config.validate = .ok ()) (h : t.AtProgress feed base s k)
    (offset : Nat) : ∃ l r s', t.AtProgress feed base s' l ∧ t.Answers feed s k offset l r s' := by
  obtain ⟨closed, count⟩ := k
  cases closed with
  | false => exact h.answers_open hvalid offset
  | true => exact ⟨_, _, s, h, h.answers_closed offset⟩

end Supply
end Replay
