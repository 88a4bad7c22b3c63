import Replay.Proofs.Shared.ClosedForm

/-!
Cursors over one buffer are independent. If the buffer can store the whole source, the replies of a
cursor depend on the items and its own position only, whatever the other cursors do in between.
-/
namespace Replay

open Store

variable {α : Type}

/-- What can be observed of a cursor besides its replies. -/
structure CursorView where
  position : Nat := 0
  released : Bool := false
  closed : Bool := false

def Cursor.view (c : Cursor) : CursorView := ⟨c.position, c.isReleased, c.isClosed⟩

def Head.view (h : Head) : CursorView := ⟨h.position, h.released, h.closed⟩

namespace CursorView

variable (n : ℕ∞) (x : Nat → α)

/-- `has_next` of a cursor over `n` items. -/
def has (v : CursorView) : Outcome StreamError Bool :=
  if v.closed then .raise .cursorClosed else .ok (decide (v.position < n))

def next (v : CursorView) : Outcome StreamError α × CursorView :=
  if v.closed then (.raise .cursorClosed, v)
  else if v.position < n then (.ok (x v.position), { v with position := v.position + 1 })
  else (.raise (.endOfData v.position), v)

/-- A cursor over the items `x` below `n`, without a buffer. -/
def reader : Reader α CursorView where
  step v :=
    match v.has n with
    | .ok true => ((v.next n x).1.map some, (v.next n x).2)
    | .ok false => (.ok none, v)
    | .error stop => (.error stop, v)

def take : CursorOp → CursorView → Reply α × CursorView
  | .hasNext, v => (.flag v.position (v.has n), v)
  | .next, v => (.item v.position (v.next n x).1, (v.next n x).2)
  | .seek position, v =>
    if v.closed then (.moved (.error .cursorClosed), v) else (.moved (.ok ()), { v with position })
  | .release, v => (.done, { v with released := true })
  | .close, v => (.done, { v with closed := true })
  | .read room, v =>
    let (r, v') := (reader n x).fill room v
    (.read v.position r, v')
  | .items count, v =>
    let (r, it) := Items.take (reader n x) count ⟨v, false⟩
    (.items v.position r, it.rest)
  | .drain most, v =>
    let (r, it) := Items.drain (reader n x) most #[] ⟨v, false⟩
    (.drained v.position r, it.rest)

end CursorView

/-- An operation on one cursor. An iteration is advanced call by call, so that other cursors may act in
between. -/
inductive IterOp where
  | cursorOp (cursorOp : CursorOp)
  | iterate

namespace IterOp

variable (n : ℕ∞) (x : Nat → α)

def make : IterOp → Items CursorView → Reply α × Items CursorView
  | cursorOp t, it => ((it.rest.take n x t).1, ⟨(it.rest.take n x t).2, false⟩)
  | iterate, it =>
    let (r, it') := it.next (CursorView.reader n x)
    (.items it.rest.position (r.map ([·])), it')

/-- The replies and views of a cursor without a buffer. -/
def expected (it : Items CursorView) : List IterOp → List (Reply α × Option CursorView)
  | [] => []
  | d :: ds => ((d.make n x it).1, some (d.make n x it).2.rest) :: expected (d.make n x it).2 ds

end IterOp

/-- A shared buffer, and which of the iterations over its cursors have ended in an error. -/
structure IterSession (α : Type) where
  shared : Shared α
  failed : Nat → Bool

def Shared.iterSession (s : Shared α) : IterSession α := ⟨s, fun _ => false⟩

namespace IterSession

inductive Step where
  | use (u : SharedOp)
  | iterate (cursor : Nat)

namespace Step

/-- The step as an operation of the cursor `i`, if it is one. -/
def iterOp? (i : Nat) : Step → Option IterOp
  | use (.cursorOp j t) => if j = i then some (.cursorOp t) else none
  | iterate j => if j = i then some .iterate else none
  | use _ => none

def of (i : Nat) : IterOp → Step
  | .cursorOp t => use (.cursorOp i t)
  | .iterate => iterate i

@[simp] theorem iterOp?_of (i : Nat) (d : IterOp) : (of i d).iterOp? i = some d := by
  cases d <;> simp [of, iterOp?]

theorem eq_of_iterOp? {i : Nat} {u : Step} {d : IterOp} (h : u.iterOp? i = some d) : u = of i d := by
  unfold iterOp? at h
  split at h
  · split at h <;> cases h
    subst_vars
    rfl
  · split at h <;> cases h
    subst_vars
    rfl
  · cases h

end Step

/-- Operating on a cursor drops the iteration over it. -/
def lasting (s : IterSession α) : SharedOp → Nat → Bool
  | .cursorOp i _ => Function.update s.failed i false
  | .addCursor _ => Function.update s.failed s.shared.cursors.length false
  | _ => s.failed

def step (s : IterSession α) : Step → Reply α × IterSession α
  | .use u => ((s.shared.use u).1, ⟨(s.shared.use u).2, s.lasting u⟩)
  | .iterate i =>
    match s.shared.cursors[i]? with
    | none => (.refused, s)
    | some c =>
      let (r, it) := Items.next Cursor.reader ⟨(c, s.shared.store.feeds), s.failed i⟩
      (.items c.position (r.map ([·])),
        { shared :=
            { s.shared with
              store := { s.shared.store with feeds := it.rest.2 }
              cursors := s.shared.cursors.set i it.rest.1 }
          failed := Function.update s.failed i it.failed })

def run (s : IterSession α) (us : List Step) : IterSession α := us.foldl (fun s u => (s.step u).2) s

/-- The replies to the cursor `i` in a run, with its view after each step. -/
def seen (s : IterSession α) (i : Nat) : List Step → List (Reply α × Option CursorView)
  | [] => []
  | u :: us =>
    let (reply, s) := s.step u
    match u.iterOp? i with
    | none => s.seen i us
    | some _ => (reply, s.shared.cursors[i]?.map Cursor.view) :: s.seen i us

/-- What is seen of one more cursor from now on. -/
def joined (s : IterSession α) (id : ProviderId) (us : List Step) : List (Reply α × Option CursorView) :=
  (s.step (.use (.addCursor id))).2.seen s.shared.cursors.length us

end IterSession

theorem Head.released_next {σ : Type} (tap : Tap α σ) (h : Head) (b : Buffer α) (s : σ) :
    (h.next tap b s).2.1.released = h.released := by
  have hread : (h.readAt tap b s).2.1.released = h.released := by
    unfold readAt lookUp
    split
    · rfl
    · rcases b.bucketFor tap h.position s with ⟨_ | _ | _, b', s'⟩ <;> rfl
  unfold next
  split
  · rfl
  · split
    · rfl
    · rcases hr : h.readAt tap b s with ⟨_ | _, h', b', s'⟩
      all_goals
        rw [hr] at hread
        exact hread

namespace Supply

variable {t : Supply α} {n : ℕ∞} {x : Nat → α} {feed count : Nat} {base : Array Event} {s : Feeds α}

theorem AtProgress.answers_within (hvalid : t.config.validate = .ok ()) (hx : Brings t.outcomes n x)
    (hn : n ≤ t.config.most) (h : t.AtProgress feed base s ⟨false, count⟩) (offset : Nat) :
    ∃ more s', t.AtProgress feed base s' ⟨false, more⟩ ∧
      t.Answers feed s ⟨false, count⟩ offset ⟨false, more⟩ (.ok (decide (offset < n))) s' := by
  obtain ⟨⟨closed, more⟩, r, s', hprogress, hanswers⟩ := h.answers_open hvalid offset
  obtain ⟨hopen, hasked⟩ := hanswers.asked rfl
  obtain rfl : closed = false := hopen
  have hf : (t.buffer count).failure = none := by
    cases hf : (t.buffer count).failure with
    | none => rfl
    | some f =>
      obtain ⟨⟨most, hmost, hlength⟩, -⟩ := length_items_of_failure hvalid h.pulls hf
      have hle := (length_items_le_pulls hvalid hx h.pulls).2.trans hn
      rw [hmost, hlength] at hle
      exact absurd (by exact_mod_cast hle) (Nat.not_succ_le_self most)
  have hr : r = .ok (decide (offset < n)) := by
    cases answer_of_asked hvalid hx hf hasked with
    | found hlt => rw [decide_eq_true hlt]
    | ended hle => rw [decide_eq_false (not_lt_of_ge hle)]
    | overflow _ _ hlt => exact absurd hn (not_le_of_gt hlt)
  exact ⟨more, s', hprogress, hr ▸ hanswers⟩

theorem AtProgress.hasNextBy_view (hvalid : t.config.validate = .ok ()) (hx : Brings t.outcomes n x)
    (hn : n ≤ t.config.most) (h : t.AtProgress feed base s ⟨false, count⟩) (id : ProviderId)
    (head : Head) :
    ∃ more s', t.AtProgress feed base s' ⟨false, more⟩ ∧
      (Cursor.plain feed id head).hasNextBy Feeds.draw s = (head.view.has n, s') := by
  cases hclosed : head.closed with
  | true =>
    refine ⟨count, s, h, onBuffer_idle h.buffer?_eq fun s => ?_⟩
    simp [Head.hasNext, Head.view, CursorView.has, hclosed]
  | false =>
    obtain ⟨more, s', hprogress, hanswers⟩ := h.answers_within hvalid hx hn head.position
    refine ⟨more, s', hprogress, ?_⟩
    have hhas : head.view.has n = .ok (decide (head.position < n)) := by
      simp [CursorView.has, Head.view, hclosed]
    rw [hhas, ← hanswers.hasNext]
    unfold Cursor.hasNextBy Head.hasNext
    simp [hclosed]

theorem AtProgress.nextBy_view (hvalid : t.config.validate = .ok ()) (hx : Brings t.outcomes n x)
    (hn : n ≤ t.config.most) (h : t.AtProgress feed base s ⟨false, count⟩) (id : ProviderId)
    (head : Head) :
    ∃ more head' s', t.AtProgress feed base s' ⟨false, more⟩ ∧
      (Cursor.plain feed id head).nextBy Feeds.draw s =
        ((head.view.next n x).1, .plain feed id head', s') ∧
      head'.view = (head.view.next n x).2 := by
  have hb := h.buffer?_eq
  cases hclosed : head.closed with
  | true =>
    refine ⟨count, head, s, h, ?_, by simp [Head.view, CursorView.next, hclosed]⟩
    simp only [Cursor.nextBy, hb, Head.next_of_closed hclosed]
    rw [Feeds.setBuffer_setBuffer hb]
    simp [Head.view, CursorView.next, hclosed]
  | false =>
    obtain ⟨more, s', hprogress, hanswers⟩ := h.answers_within hvalid hx hn head.position
    obtain ⟨head', hopen', hposition, hnext⟩ := hanswers.next id head hclosed rfl
    have hreleased : head'.released = head.released := by
      have hkeeps := head.released_next (Feeds.tap Feeds.draw feed)
        (t.kept ⟨false, count⟩) (s.setBuffer feed none)
      simp only [Cursor.nextBy, hb, Prod.mk.injEq, Cursor.plain.injEq] at hnext
      rwa [hnext.2.1.2.2] at hkeeps
    refine ⟨more, head', s', hprogress, hnext.trans ?_, ?_⟩
    · by_cases hlt : (head.position : ℕ∞) < n
      · rw [decide_eq_true hlt] at hanswers ⊢
        obtain ⟨-, a, -, -, -, ha⟩ := hanswers.found hvalid
        obtain rfl := eq_of_items hvalid hx hprogress.pulls ha
        simp [CursorView.next, Head.view, hclosed, hlt, Head.taken, ha]
      · simp [CursorView.next, Head.view, hclosed, hlt, Head.taken]
    · by_cases hlt : (head.position : ℕ∞) < n
      · simpa [CursorView.next, Head.view, hclosed, hlt, hopen', hreleased] using hposition
      · simpa [CursorView.next, Head.view, hclosed, hlt, hopen', hreleased] using hposition

theorem brings_counting (config : Config) (bound : Nat) :
    Brings (counting config bound).outcomes bound id where
  item i hi := if_pos (by exact_mod_cast hi)
  finished i hi := if_neg (by exact_mod_cast hi.le.not_gt)

/-- A cursor on an open feed, with its view. -/
def HasView (t : Supply α) (feed : Nat) (base : Array Event) (c : Cursor × Feeds α) (v : CursorView) :
    Prop :=
  ∃ id head count, c.1 = .plain feed id head ∧ head.view = v ∧ t.AtProgress feed base c.2 ⟨false, count⟩

theorem hasView_reader (hvalid : t.config.validate = .ok ()) (hx : Brings t.outcomes n x)
    (hn : n ≤ t.config.most) (feed : Nat) (base : Array Event) :
    Cursor.reader.Agrees (CursorView.reader n x) (t.HasView feed base) := by
  rintro ⟨c, s⟩ v ⟨id, head, count, hc, rfl, h⟩
  obtain rfl : c = .plain feed id head := hc
  obtain ⟨more, s', h', hhas⟩ := h.hasNextBy_view hvalid hx hn id head
  simp only [Cursor.reader, Cursor.stepBy, CursorView.reader, hhas]
  rcases head.view.has n with stop | _ | _
  · exact ⟨rfl, id, head, more, rfl, rfl, h'⟩
  · exact ⟨rfl, id, head, more, rfl, rfl, h'⟩
  · obtain ⟨most, head', s'', h'', hnext, hview⟩ := h'.nextBy_view hvalid hx hn id head
    simp only [hnext]
    exact ⟨rfl, id, head', most, rfl, hview, h''⟩

theorem HasView.take (hvalid : t.config.validate = .ok ()) (hx : Brings t.outcomes n x)
    (hn : n ≤ t.config.most) {m : Store α} {c : Cursor} {v : CursorView}
    (h : t.HasView feed base (c, m.feeds) v) (cursorOp : CursorOp) :
    ((cursorOp.perform c).run m).1.1 = (v.take n x cursorOp).1 ∧
      t.HasView feed base (((cursorOp.perform c).run m).1.2, ((cursorOp.perform c).run m).2.feeds)
        (v.take n x cursorOp).2 := by
  have hreader := hasView_reader hvalid hx hn feed base
  have hstart : Reader.Agrees.Along (t.HasView feed base) ⟨(c, m.feeds), false⟩ ⟨v, false⟩ := ⟨rfl, h⟩
  have hposition : c.position = v.position := by
    obtain ⟨id, head, count, rfl, rfl, -⟩ := h
    rfl
  cases cursorOp with
  | hasNext =>
    obtain ⟨id, head, count, rfl, rfl, h⟩ := h
    obtain ⟨more, s', h', hhas⟩ := h.hasNextBy_view hvalid hx hn id head
    simp only [CursorOp.perform, onFeeds, Call.run_bind, Call.run_modifyGet, Call.run_pure, Cursor.hasNext,
      hhas]
    exact ⟨rfl, id, head, more, rfl, rfl, h'⟩
  | next =>
    obtain ⟨id, head, count, rfl, rfl, h⟩ := h
    obtain ⟨more, head', s', h', hnext, hview⟩ := h.nextBy_view hvalid hx hn id head
    simp only [CursorOp.perform, Cursor.read, onFeeds, Call.run_bind, Call.run_modifyGet, Call.run_pure,
      Cursor.next, hnext]
    exact ⟨rfl, id, head', more, rfl, hview, h'⟩
  | seek position =>
    obtain ⟨id, head, count, rfl, rfl, h⟩ := h
    cases hclosed : head.closed with
    | true =>
      simp only [CursorOp.perform, Cursor.seek, Head.seek, CursorView.take, Head.view, hclosed, if_true]
      exact ⟨rfl, id, head, count, rfl, by simp [Head.view, hclosed], h⟩
    | false =>
      simp only [CursorOp.perform, Cursor.seek, Head.seek, CursorView.take, Head.view, hclosed,
        Bool.false_eq_true, if_false]
      exact ⟨rfl, id, ⟨position, head.cached, head.released, false⟩, count, rfl, rfl, h⟩
  | release =>
    obtain ⟨id, head, count, rfl, rfl, h⟩ := h
    exact ⟨rfl, id, head.release, count, rfl, rfl, h⟩
  | close =>
    obtain ⟨id, head, count, rfl, rfl, h⟩ := h
    exact ⟨rfl, id, head.close, count, rfl, rfl, h⟩
  | read room =>
    obtain ⟨hr, hplace⟩ := hreader.fill room h
    exact ⟨congrArg₂ Reply.read hposition hr, hplace⟩
  | items count =>
    obtain ⟨hr, -, hplace⟩ := hreader.take count hstart
    exact ⟨congrArg₂ Reply.items hposition hr, hplace⟩
  | drain most =>
    obtain ⟨hr, -, hplace⟩ := hreader.drain most #[] hstart
    exact ⟨congrArg₂ Reply.drained hposition hr, hplace⟩

/-- A session over a buffer that was not closed. -/
def OpenSession (t : Supply α) (base : Array Event) (s : IterSession α) : Prop :=
  ∃ count, t.Reached base s.shared ⟨false, count⟩

end Supply

namespace IterSession

variable {s : IterSession α} {i : Nat} {it : Items CursorView}

/-- The cursor `i` has the view of `it`, with its iteration. -/
def IteratorAt (s : IterSession α) (i : Nat) (it : Items CursorView) : Prop :=
  s.shared.cursors[i]?.map Cursor.view = some it.rest ∧ s.failed i = it.failed

theorem IteratorAt.lt (h : s.IteratorAt i it) : i < s.shared.cursors.length := by
  obtain ⟨c, hc, -⟩ := Option.map_eq_some_iff.mp h.1
  exact (List.getElem?_eq_some_iff.mp hc).1

theorem iteratorAt_addCursor (s : IterSession α) (id : ProviderId) :
    (s.step (.use (.addCursor id))).2.IteratorAt s.shared.cursors.length ⟨{}, false⟩ := by
  refine ⟨?_, Function.update_self ..⟩
  simp only [step, Shared.use, List.getElem?_concat_length]
  rfl

theorem IteratorAt.of_other (h : s.IteratorAt i it) {u : Step} (hu : u.iterOp? i = none) :
    (s.step u).2.IteratorAt i it := by
  have hlt := h.lt
  have hother : ∀ {j : Nat} {d : IterOp}, (if j = i then some d else none) = none → j ≠ i := by
    intro j d hj hji
    rw [if_pos hji] at hj
    cases hj
  cases u with
  | iterate j =>
    have hne := hother hu
    unfold step
    dsimp only
    split
    · exact h
    · refine ⟨?_, ?_⟩
      · rw [← h.1]
        exact congrArg _ (List.getElem?_set_ne hne)
      · rw [← h.2]
        exact Function.update_of_ne hne.symm _ _
  | use u =>
    cases u with
    | addCursor id =>
      refine ⟨?_, ?_⟩
      · rw [← h.1]
        exact congrArg _ (List.getElem?_append_left hlt)
      · rw [← h.2]
        exact Function.update_of_ne hlt.ne _ _
    | cursorOp j cursorOp =>
      have hne := hother hu
      refine ⟨?_, ?_⟩
      · rw [← h.1]
        simp only [step, Shared.use]
        split
        · rfl
        · exact congrArg _ (List.getElem?_set_ne hne)
      · rw [← h.2]
        exact Function.update_of_ne hne.symm _ _
    | hasNext offset => exact h
    | bucketFor offset => exact h
    | close => exact h

end IterSession

namespace Supply

variable {t : Supply α} {n : ℕ∞} {x : Nat → α} {base : Array Event} {s : IterSession α} {i : Nat}
  {it : Items CursorView}

theorem OpenSession.hasView (h : t.OpenSession base s) {c : Cursor} (hc : s.shared.cursors[i]? = some c) :
    t.HasView s.shared.feed base (c, s.shared.store.feeds) c.view := by
  obtain ⟨count, hreached⟩ := h
  obtain ⟨id, head, rfl⟩ := hreached.cursors c (List.mem_of_getElem? hc)
  exact ⟨id, head, count, rfl, rfl, hreached.atProgress⟩

theorem OpenSession.replace (h : t.OpenSession base s) {m : Store α} {d : Cursor} {v : CursorView}
    (hd : t.HasView s.shared.feed base (d, m.feeds) v) (failed : Nat → Bool) :
    t.OpenSession base ⟨{ s.shared with store := m, cursors := s.shared.cursors.set i d }, failed⟩ := by
  obtain ⟨_, hreached⟩ := h
  obtain ⟨id, head, count, hplain, -, hprogress⟩ := hd
  refine ⟨count, hprogress, fun c hc => ?_⟩
  rcases List.mem_or_eq_of_mem_set hc with hc | rfl
  · exact hreached.cursors c hc
  · exact ⟨id, head, hplain⟩

theorem OpenSession.step (hvalid : t.config.validate = .ok ()) (hx : Brings t.outcomes n x)
    (hn : n ≤ t.config.most) (h : t.OpenSession base s) {u : IterSession.Step} (hu : u ≠ .use .close) :
    t.OpenSession base (s.step u).2 := by
  cases u with
  | use u =>
    obtain ⟨count, hreached⟩ := h
    obtain ⟨⟨closed, more⟩, hreachedBy, h', -⟩ := hreached.use hvalid u
    have hclose : u ≠ .close := fun hc => hu (congrArg IterSession.Step.use hc)
    obtain rfl : closed = false := by
      simpa [hclose.symm] using hreachedBy.closed_iff
    exact ⟨more, h'⟩
  | iterate j =>
    unfold IterSession.step
    dsimp only
    split
    · exact h
    · rename_i c hc
      have hstart : Reader.Agrees.Along (t.HasView s.shared.feed base)
          ⟨(c, s.shared.store.feeds), s.failed j⟩ ⟨c.view, s.failed j⟩ := ⟨rfl, h.hasView hc⟩
      obtain ⟨-, -, hplace⟩ := (hasView_reader hvalid hx hn s.shared.feed base).next hstart
      exact h.replace (m := { s.shared.store with feeds := _ }) hplace _

theorem OpenSession.run (hvalid : t.config.validate = .ok ()) (hx : Brings t.outcomes n x)
    (hn : n ≤ t.config.most) (h : t.OpenSession base s) (us : List IterSession.Step)
    (hus : .use .close ∉ us) : t.OpenSession base (s.run us) := by
  induction us generalizing s with
  | nil => exact h
  | cons u us ih =>
    rw [List.mem_cons, not_or] at hus
    exact ih (h.step hvalid hx hn (Ne.symm hus.1)) hus.2

theorem OpenSession.own (hvalid : t.config.validate = .ok ()) (hx : Brings t.outcomes n x)
    (hn : n ≤ t.config.most) (h : t.OpenSession base s) (hi : s.IteratorAt i it) (d : IterOp) :
    (s.step (.of i d)).1 = (d.make n x it).1 ∧ (s.step (.of i d)).2.IteratorAt i (d.make n x it).2 := by
  obtain ⟨hview, hfailed⟩ := hi
  have hlt := IterSession.IteratorAt.lt ⟨hview, hfailed⟩
  obtain ⟨c, hc, hrest⟩ := Option.map_eq_some_iff.mp hview
  have hhasView := h.hasView hc
  have hposition : c.position = it.rest.position := congrArg CursorView.position hrest
  rw [hrest] at hhasView
  have hset : ∀ d : Cursor, (s.shared.cursors.set i d)[i]?.map Cursor.view = some d.view := by
    intro d
    rw [List.getElem?_set_self hlt]
    rfl
  have hseen : ∀ {place : Cursor × Feeds α} {v : CursorView}, t.HasView s.shared.feed base place v →
      place.1.view = v := by
    rintro place v ⟨id, head, count, hplain, rfl, -⟩
    rw [hplain]
    rfl
  cases d with
  | cursorOp cursorOp =>
    obtain ⟨hreply, hplace⟩ := hhasView.take hvalid hx hn cursorOp
    simp only [IterSession.Step.of, IterSession.step, Shared.use, hc, IterOp.make]
    refine ⟨hreply, ?_, Function.update_self ..⟩
    exact (hset _).trans (congrArg some (hseen hplace))
  | iterate =>
    have hstart : Reader.Agrees.Along (t.HasView s.shared.feed base)
        ⟨(c, s.shared.store.feeds), s.failed i⟩ it := ⟨hfailed, hhasView⟩
    obtain ⟨hreply, hfailed', hplace⟩ :=
      (hasView_reader hvalid hx hn s.shared.feed base).next hstart
    simp only [IterSession.Step.of, IterSession.step, hc, IterOp.make]
    refine ⟨by rw [hposition, hreply], ?_, (Function.update_self ..).trans hfailed'⟩
    exact (hset _).trans (congrArg some (hseen hplace))

theorem OpenSession.seen_eq (hvalid : t.config.validate = .ok ()) (hx : Brings t.outcomes n x)
    (hn : n ≤ t.config.most) (h : t.OpenSession base s) (hi : s.IteratorAt i it) (us : List IterSession.Step)
    (hus : .use .close ∉ us) :
    s.seen i us = IterOp.expected n x it (us.filterMap (·.iterOp? i)) := by
  induction us generalizing s it with
  | nil => rfl
  | cons u us ih =>
    rw [List.mem_cons, not_or] at hus
    have hstep := h.step hvalid hx hn (Ne.symm hus.1)
    unfold IterSession.seen
    cases hu : u.iterOp? i with
    | none =>
      rw [List.filterMap_cons_none hu]
      exact ih hstep (hi.of_other hu) hus.2
    | some d =>
      obtain rfl := IterSession.Step.eq_of_iterOp? hu
      obtain ⟨hreply, hi'⟩ := h.own hvalid hx hn hi d
      rw [List.filterMap_cons_some hu, IterOp.expected, ← ih hstep hi' hus.2, ← hreply, ← hi'.1]

theorem OpenSession.joined_eq (hvalid : t.config.validate = .ok ()) (hx : Brings t.outcomes n x)
    (hn : n ≤ t.config.most) (h : t.OpenSession base s) (id : ProviderId) (us : List IterSession.Step)
    (hus : .use .close ∉ us) :
    s.joined id us =
      IterOp.expected n x ⟨{}, false⟩ (us.filterMap (·.iterOp? s.shared.cursors.length)) := by
  have hjoined : t.OpenSession base (s.step (.use (.addCursor id))).2 := h.step hvalid hx hn nofun
  exact hjoined.seen_eq hvalid hx hn (s.iteratorAt_addCursor id) us hus

end Supply

namespace Shared

/-- Over a source that the buffer can store, the replies and views of a cursor in any interleaving with
other cursors are those of the same operations on a single cursor over a fresh buffer. -/
theorem cursors_independent (t : Supply α) (hvalid : t.config.validate = .ok ()) {n : ℕ∞}
    {x : Nat → α} (hx : Brings t.outcomes n x) (hn : n ≤ t.config.most) (m m' : Store α) :
    ∃ s s', begin m t = (.ok (), s) ∧ begin m' t = (.ok (), s') ∧
      ∀ (us vs : List IterSession.Step) (id : ProviderId), .use .close ∉ us → .use .close ∉ vs →
        let others := s.iterSession.run us
        let own := vs.filterMap (·.iterOp? others.shared.cursors.length)
        others.joined id vs = s'.iterSession.joined id (own.map (.of 0)) := by
  obtain ⟨s, hs, hreached⟩ := Supply.reached_begin hvalid m
  obtain ⟨s', hs', hreached'⟩ := Supply.reached_begin hvalid m'
  refine ⟨s, s', hs, hs', fun us vs id hus hvs => ?_⟩
  intro others own
  have hempty : s'.iterSession.shared.cursors = [] := by
    obtain rfl : (begin m' t).2 = s' := congrArg Prod.snd hs'
    rfl
  have halone : t.OpenSession m'.feeds.log s'.iterSession := ⟨0, hreached'⟩
  have hothers : t.OpenSession m.feeds.log others :=
    Supply.OpenSession.run hvalid hx hn ⟨0, hreached⟩ us hus
  have hown : .use .close ∉ own.map (IterSession.Step.of 0) := by
    intro hmem
    obtain ⟨d, -, hd⟩ := List.mem_map.mp hmem
    cases d <;> cases hd
  have hself : (own.map (IterSession.Step.of 0)).filterMap
      (·.iterOp? s'.iterSession.shared.cursors.length) = own := by
    rw [hempty, List.filterMap_map]
    simp
  rw [hothers.joined_eq hvalid hx hn id vs hvs, halone.joined_eq hvalid hx hn id _ hown, hself]

/-- Two items, both of which the buffer stores. -/
theorem cursors_independent_two :
    ∃ s s', begin ({} : Store Nat) (.counting ⟨1, 1, .limited 2 (by decide), .owned⟩ 2) = (.ok (), s) ∧
      begin {} (.counting ⟨1, 1, .limited 2 (by decide), .owned⟩ 2) = (.ok (), s') ∧
      ∀ (us vs : List IterSession.Step) (id : ProviderId), .use .close ∉ us → .use .close ∉ vs →
        let others := s.iterSession.run us
        let own := vs.filterMap (·.iterOp? others.shared.cursors.length)
        others.joined id vs = s'.iterSession.joined id (own.map (.of 0)) := by
  exact cursors_independent _ rfl (Supply.brings_counting _ 2) le_rfl {} {}

end Shared
end Replay
