import Replay.Proofs.Reading
import Replay.Proofs.Shared.Progress

/-!
One operation on a shared buffer. It leaves the feed at some later progress and replies with items that
the source has brought.
-/
namespace Replay

open Store

variable {α : Type}

namespace Store

variable {m : Store α} {feed : Nat}

theorem closeSource_script {outcomes : Nat → Pull α} {count : Nat} {hint : Option Nat}
    {closing : Outcome SourceError Unit} (w : Switches α)
    (h : m.feeds.source? feed = some (.script outcomes count hint closing)) :
    (closeSource w feed).run m =
      let feeds := m.feeds.count feed fun t => { t with closes := t.closes + 1 }
      (closing,
        { m with feeds := feeds.setSource feed (some (.script outcomes count hint closing)) }) := by
  simp only [closeSource, Call.run_bind, Call.run_get, Call.run_modify, Call.run_pure, h,
    Source.close]

theorem dropSource_script {outcomes : Nat → Pull α} {count : Nat} {hint : Option Nat}
    {closing : Outcome SourceError Unit} (w : Switches α)
    (h : m.feeds.source? feed = some (.script outcomes count hint closing)) :
    (dropSource w feed).run m = ((), { m with feeds := m.feeds.setSource feed none }) := by
  simp only [dropSource, Call.run_bind, Call.run_get, Call.run_modify, Call.run_pure, h, Source.drop]

theorem closeBuffer_script {c : Feed α} {b : Buffer α} {outcomes : Nat → Pull α} {count : Nat}
    {hint : Option Nat} {closing : Outcome SourceError Unit} (w : Switches α)
    (h : m.feeds.cells[feed]? = some c) (hb : c.buffer = some b) (hopened : b.closed = false)
    (hs : c.source = some (.script outcomes count hint closing)) :
    ((closeBuffer w feed).run m).2.feeds.log =
        m.feeds.log.push (.bufferClosed b.consumed b.ownership) ∧
      ((closeBuffer w feed).run m).2.feeds.cells[feed]? = some
        { source := none
          tally := match b.ownership with
            | .owned => { c.tally with closes := c.tally.closes + 1 }
            | .borrowed => c.tally
          buffer := some b.close } := by
  have hbuffer := (Feeds.buffer?_eq h).trans hb
  have hcell := Feeds.cell_modify h fun c => { c with buffer := some b.close }
  have hsource : (m.feeds.setBuffer feed (some b.close)).source? feed =
      some (.script outcomes count hint closing) :=
    (Feeds.source?_eq hcell).trans hs
  cases hownership : b.ownership with
  | owned =>
    simp only [closeBuffer, Call.run_bind, Call.run_get, Call.run_modify, Call.run_pure, hbuffer,
      hopened, hownership, Bool.false_eq_true, if_false, note]
    rw [closeSource_script w hsource]
    have hclosed := Feeds.cell_modify (Feeds.cell_modify hcell
      fun c => { c with tally.closes := c.tally.closes + 1 })
      fun c => { c with source := some (.script outcomes count hint closing) }
    rw [dropSource_script w]
    · exact ⟨rfl, Feeds.cell_modify hclosed fun c => { c with source := none }⟩
    · exact Feeds.source?_eq hclosed
  | borrowed =>
    simp only [closeBuffer, Call.run_bind, Call.run_get, Call.run_modify, Call.run_pure, hbuffer,
      hopened, hownership, Bool.false_eq_true, if_false, note]
    rw [dropSource_script w hsource]
    exact ⟨rfl, Feeds.cell_modify hcell fun c => { c with source := none }⟩

end Store

namespace Supply

variable {t : Supply α} {feed : Nat} {base : Array Event} {k l : Progress} {s : Feeds α}

theorem item?_kept_eq {held : Nat} {p : Position} :
    (t.kept k).item? held p = (t.buffer k.count).item? held p := by
  unfold kept
  split
  · rfl
  · rfl

theorem item?_kept (hvalid : t.config.validate = .ok ()) (h : t.start.Pulls t.outcomes l.count)
    (hle : k.count ≤ l.count) {held : Nat} {p : Position} {a : α}
    (ha : (t.kept k).item? held p = some a) : (t.kept l).item? held p = some a := by
  rw [item?_kept_eq] at ha ⊢
  exact Buffer.item?_after (sound_start hvalid) h hle ha

theorem Answers.found {s' : Feeds α} {offset : Nat} (hvalid : t.config.validate = .ok ())
    (h : t.Answers feed s k offset l (.ok true) s') :
    ∃ p a, t.layout.locate offset = some p ∧ (t.kept l).shown? p = some p.bucket ∧
      (t.kept l).item? p.bucket p = some a ∧ (t.items l.count)[offset]? = some a := by
  cases hclosed : k.closed with
  | true =>
    obtain ⟨-, -, hr⟩ := h.shut hclosed
    cases hr
  | false =>
    obtain ⟨hopen, hasked⟩ := h.asked hclosed
    obtain ⟨hf, hlt⟩ := hasked.found rfl
    have hkept : t.kept l = t.buffer l.count := by simp [kept, hopen]
    obtain ⟨p, a, hp, hfound⟩ := (sound_buffer hvalid hasked.pulls).exists_shown hf hlt
    rw [← layout_kept hvalid hasked.pulls, hkept]
    exact ⟨p, a, hp, hfound⟩

theorem Answers.le {s' : Feeds α} {offset : Nat} {r : Outcome StreamError Bool}
    (h : t.Answers feed s k offset l r s') : k ≤ l := by
  cases hclosed : k.closed with
  | true => exact (h.shut hclosed).1.ge
  | false =>
    obtain ⟨hopen, hasked⟩ := h.asked hclosed
    refine ⟨hopen.trans hclosed.symm, hasked.count_le, ?_⟩
    rw [hclosed]
    nofun

theorem AtProgress.closeBuffer (hvalid : t.config.validate = .ok ()) {m : Store α} (w : Switches α)
    (h : t.AtProgress feed base m.feeds k) :
    t.AtProgress feed base ((Store.closeBuffer w feed).run m).2.feeds ⟨true, k.count⟩ := by
  obtain ⟨closed, count⟩ := k
  have hb := h.buffer?_eq
  cases closed with
  | true =>
    have hclosed : (t.kept ⟨true, count⟩).closed = true := rfl
    simp only [Store.closeBuffer, Call.run_bind, Call.run_get, Call.run_pure, hb, hclosed, if_true]
    exact h
  | false =>
    have hownership : (t.kept ⟨false, count⟩).ownership = t.config.ownership :=
      ownership_buffer hvalid h.pulls
    obtain ⟨hlog, hcell⟩ := closeBuffer_script w h.cell rfl (sound_buffer hvalid h.pulls).opened rfl
    refine ⟨h.pulls, ?_, ?_⟩
    · rw [hcell, hownership]
      cases ho : t.config.ownership <;> simp [Supply.cell, closes, ho, kept]
    · rw [hlog, h.log, hownership]
      simp [events, kept]

theorem onBuffer_idle {β : Type} {b : Buffer α} {r : Outcome StreamError β}
    {f : Buffer α → Feeds α → Outcome StreamError β × Buffer α × Feeds α}
    (hb : s.buffer? feed = some b) (hf : ∀ s, f b s = (r, b, s)) : s.onBuffer feed f = (r, s) := by
  simp only [Feeds.onBuffer, hb, hf]
  rw [Feeds.setBuffer_setBuffer hb]

theorem AtProgress.hasNextBy (hvalid : t.config.validate = .ok ()) (h : t.AtProgress feed base s k)
    (id : ProviderId) (head : Head) :
    ∃ l r s', k ≤ l ∧ t.AtProgress feed base s' l ∧
      (Cursor.plain feed id head).hasNextBy Feeds.draw s = (r, s') := by
  cases hclosed : head.closed with
  | true =>
    refine ⟨k, .raise .cursorClosed, s, le_rfl, h, onBuffer_idle h.buffer?_eq fun s => ?_⟩
    simp [Head.hasNext, hclosed]
  | false =>
    obtain ⟨l, r, s', hprogress, hanswers⟩ := h.answers hvalid head.position
    refine ⟨l, r, s', hanswers.le, hprogress, ?_⟩
    rw [← hanswers.hasNext]
    unfold Cursor.hasNextBy Head.hasNext
    simp [hclosed]

/-- `next` of a head returns the item at its position and advances, or leaves the head unchanged. -/
theorem AtProgress.nextBy (hvalid : t.config.validate = .ok ()) (h : t.AtProgress feed base s k)
    (id : ProviderId) (head : Head) :
    ∃ l r head' s', k ≤ l ∧ t.AtProgress feed base s' l ∧
      (Cursor.plain feed id head).nextBy Feeds.draw s = (r, .plain feed id head', s') ∧
      match r with
      | .ok a => (t.items l.count)[head.position]? = some a ∧ head'.position = head.position + 1
      | _ => head'.position = head.position := by
  cases hclosed : head.closed with
  | true =>
    have hb := h.buffer?_eq
    refine ⟨k, .raise .cursorClosed, head, s, le_rfl, h, ?_, rfl⟩
    simp only [Cursor.nextBy, hb, Head.next_of_closed hclosed]
    rw [Feeds.setBuffer_setBuffer hb]
  | false =>
    obtain ⟨l, r, s', hprogress, hanswers⟩ := h.answers hvalid head.position
    obtain ⟨head', -, hposition, hnext⟩ := hanswers.next id head hclosed rfl
    refine ⟨l, _, head', s', hanswers.le, hprogress, hnext, ?_⟩
    rcases r with stop | found
    · exact hposition
    · cases found with
      | false => exact hposition
      | true =>
        obtain ⟨-, a, -, -, -, ha⟩ := hanswers.found hvalid
        simp only [Head.taken, ha]
        exact ⟨trivial, hposition⟩

def AtPosition (t : Supply α) (feed : Nat) (base : Array Event) (id : ProviderId)
    (c : Cursor × Feeds α) (k : Progress) (p : Nat) : Prop :=
  ∃ head, c.1 = .plain feed id head ∧ head.position = p ∧ t.AtProgress feed base c.2 k

theorem follows (hvalid : t.config.validate = .ok ()) (feed : Nat) (base : Array Event)
    (id : ProviderId) :
    Cursor.reader.Follows (fun k : Progress => t.items k.count) (t.AtPosition feed base id) where
  mono := fun hle => delivered_mono t.outcomes hle.2.1
  step := by
    rintro ⟨c, s⟩ k p ⟨head, hc, rfl, h⟩
    obtain rfl : c = .plain feed id head := hc
    obtain ⟨l, r, s', hle, h', hhas⟩ := h.hasNextBy hvalid id head
    simp only [Cursor.reader, Cursor.stepBy, hhas]
    rcases r with stop | found
    · exact ⟨l, head.position, hle, ⟨head, rfl, rfl, h'⟩, rfl⟩
    · cases found with
      | false => exact ⟨l, head.position, hle, ⟨head, rfl, rfl, h'⟩, rfl⟩
      | true =>
        obtain ⟨m, r, head', s'', hle', h'', hnext, hr⟩ := h'.nextBy hvalid id head
        simp only [hnext]
        refine ⟨m, head'.position, hle.trans hle', ⟨head', rfl, rfl, h''⟩, ?_⟩
        cases r with
        | error stop => exact hr
        | ok a => exact hr

end Supply
end Replay
