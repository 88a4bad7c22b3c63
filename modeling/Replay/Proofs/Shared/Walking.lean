import Replay.Proofs.Promises.Cursors
import Replay.Proofs.Walking

/-!
Steps of a cursor of any depth along a source. Each step returns the item at the position and advances,
or leaves the cursor, at the end of the source or with an error. So a walk yields a slice of the source,
and consecutive walks continue without a gap.
-/
namespace Replay

variable {α : Type}

def Feeds.pulls (s : Feeds α) (feed : Nat) : Nat := (s.cells[feed]?.map (·.tally.pulls)).getD 0

namespace Supply

/-- The source never panics; it may fail any number of times. -/
def PanicFree (t : Supply α) : Prop := ∀ i p, t.outcomes i ≠ .panicked p

/-- Two items, with an error before the second. -/
def faltering : Supply Nat where
  config := ⟨1, 1, .unbounded, .owned⟩
  outcomes i := ([.item 7, .failed (.failed "late"), .item 8] : List (Pull Nat)).getD i .finished

theorem panicFree_faltering : faltering.PanicFree
  | 0, _ | 1, _ | 2, _ | _ + 3, _ => nofun

/-- The source ends with the pull `n` and not before. -/
structure EndsAt (t : Supply α) (n : Nat) : Prop where
  finished : t.outcomes n = .finished
  first : ∀ j < n, t.outcomes j ≠ .finished

/-- The pulls have reached the end of the source, at or before `position`. -/
def Ended (t : Supply α) (pulls position : Nat) : Prop :=
  ∃ n < pulls, t.EndsAt n ∧ (t.items n).length ≤ position

/-- The errors that may stop a cursor: its own, that of its buffer, or a source error among the pulls
since `pulls`, which leaves the buffer open. -/
inductive Obstructs (t : Supply α) (feed : Nat) (c : Cursor) (pulls : Nat) (s : Feeds α) :
    StreamError → Prop
  | cursor {e : StreamError} (h : c.obstacle? = some e) : Obstructs t feed c pulls s e
  | buffer {b : Buffer α} {e : StreamError} (hb : s.buffer? feed = some b) (h : b.refusal = some e) :
    Obstructs t feed c pulls s e
  | source {b : Buffer α} {cause : SourceError} (hb : s.buffer? feed = some b) (h : b.refusal = none)
    (hlt : pulls < s.pulls feed) (hcause : t.outcomes (s.pulls feed - 1) = .failed cause) :
    Obstructs t feed c pulls s (.source cause)

variable {t : Supply α} {feed : Nat} {base : Array Event} {s s' : Feeds α} {k l : Progress} {c d : Cursor}
  {count more n p q : Nat} {r : Outcome StreamError Bool}

theorem EndsAt.eq {m : Nat} (h : t.EndsAt n) (h' : t.EndsAt m) : n = m :=
  Nat.le_antisymm (Nat.le_of_not_lt fun hlt => h.first m hlt h'.finished)
    (Nat.le_of_not_lt fun hlt => h'.first n hlt h.finished)

theorem Ended.mono (h : t.Ended count p) (hcount : count ≤ more) (hp : p ≤ q) : t.Ended more q := by
  obtain ⟨n, hn, hends, hle⟩ := h
  exact ⟨n, hn.trans_le hcount, hends, hle.trans hp⟩

theorem Obstructs.mono {e : StreamError} (h : t.Obstructs feed c more s e) (hle : count ≤ more) :
    t.Obstructs feed c count s e := by
  cases h with
  | cursor h => exact .cursor h
  | buffer hb h => exact .buffer hb h
  | source hb h hlt hcause => exact .source hb h (hle.trans_lt hlt) hcause

theorem AtProgress.count_eq (h : t.AtProgress feed base s k) : s.pulls feed = k.count := by
  rw [Feeds.pulls, h.cell]
  rfl

theorem consistent_kept (hvalid : t.config.validate = .ok ()) (h : t.start.Pulls t.outcomes k.count) :
    (t.kept k).Consistent := by
  have hsound := sound_buffer hvalid h
  unfold kept
  split
  · exact hsound.consistent.close hsound.opened
  · exact hsound.consistent

theorem closed_of_kept (h : (t.kept k).isClosed = false) : k.closed = false := by
  cases hclosed : k.closed with
  | false => rfl
  | true =>
    rw [kept, if_pos hclosed] at h
    cases h

theorem EndsAt.count_le (hvalid : t.config.validate = .ok ()) (h : t.EndsAt n)
    (hpulls : t.start.Pulls t.outcomes count) : count ≤ n + 1 := by
  by_contra hlt
  have hlive : (t.buffer (n + 1)).exhausted = false := (hpulls (n + 1) (Nat.lt_of_not_le hlt)).2
  rw [exhausted_succ hvalid (hpulls.mono (Nat.le_of_not_le hlt)), h.finished] at hlive
  cases hlive

theorem EndsAt.items_succ (h : t.EndsAt n) : t.items (n + 1) = t.items n := by
  rw [items, delivered_succ, h.finished]
  exact List.append_nil _

theorem EndsAt.items_prefix (hvalid : t.config.validate = .ok ()) (h : t.EndsAt n)
    (hpulls : t.start.Pulls t.outcomes count) : t.items count <+: t.items n := by
  rw [← h.items_succ]
  exact delivered_mono t.outcomes (h.count_le hvalid hpulls)

theorem exists_endsAt (hvalid : t.config.validate = .ok ()) (hpulls : t.start.Pulls t.outcomes count)
    (h : (t.buffer count).exhausted) : ∃ n, count = n + 1 ∧ t.EndsAt n := by
  cases count with
  | zero => cases h
  | succ n =>
    have hend : ∀ o : Pull α, o.isEnd → o = .finished := by
      rintro (_ | _ | _ | _) ho
      all_goals first | rfl | cases ho
    refine ⟨n, rfl, hend _ ?_, fun j hj hfinished => ?_⟩
    · rwa [← exhausted_succ hvalid hpulls]
    · have hlive : (t.buffer (j + 1)).exhausted = false := (hpulls (j + 1) (Nat.succ_lt_succ hj)).2
      rw [exhausted_succ hvalid (hpulls.mono (Nat.le_of_lt (Nat.succ_lt_succ hj))), hfinished] at hlive
      cases hlive

theorem Answers.consumed_le (hvalid : t.config.validate = .ok ())
    (hpulls : t.start.Pulls t.outcomes k.count) (h : t.Answers feed s k p l r s') :
    (t.kept l).consumed ≤ max (t.kept k).consumed (p + 1) := by
  cases hclosed : k.closed with
  | true =>
    obtain ⟨rfl, -, -⟩ := h.shut hclosed
    exact le_max_left _ _
  | false =>
    obtain ⟨-, hasked⟩ := h.asked hclosed
    rw [consumed_kept, consumed_kept]
    cases hf : (t.buffer k.count).failure with
    | some f =>
      obtain ⟨hsame, -⟩ := hasked.refused f hf
      rw [hsame]
      exact le_max_left _ _
    | none =>
      have hlength := (sound_buffer hvalid hpulls).length_eq hf
      have hlength' := length_items hvalid hasked.pulls
      have hgrown : (t.items l.count).length ≤ (t.items k.count).length + (l.count - k.count) :=
        length_delivered_le hasked.count_le
      have hadd : l.count ≤ k.count + (p + 1 - (t.buffer k.count).consumed) := hasked.le_add
      omega

theorem Answers.ended (hvalid : t.config.validate = .ok ()) (h : t.Answers feed s k p l (.ok false) s') :
    t.Ended l.count p := by
  cases hclosed : k.closed with
  | true =>
    obtain ⟨-, -, hr⟩ := h.shut hclosed
    cases hr
  | false =>
    obtain ⟨-, hasked⟩ := h.asked hclosed
    obtain ⟨hf, hexhausted, hle⟩ := hasked.ended rfl
    obtain ⟨n, hn, hends⟩ := exists_endsAt hvalid hasked.pulls hexhausted
    refine ⟨n, by omega, hends, ?_⟩
    rw [← hends.items_succ, ← hn, (sound_buffer hvalid hasked.pulls).length_eq hf]
    exact hle

theorem Answers.obstructs (hvalid : t.config.validate = .ok ()) {e : StreamError}
    (h : t.Answers feed s k p l (.raise e) s') (hprogress : t.AtProgress feed base s' l) (c : Cursor) :
    t.Obstructs feed c k.count s' e := by
  have hb := hprogress.buffer?_eq
  cases hclosed : k.closed with
  | true =>
    obtain ⟨rfl, rfl, hr⟩ := h.shut hclosed
    refine .buffer hb ?_
    rw [Outcome.raise_inj.mp hr, kept, if_pos hclosed]
    exact Buffer.refusal_close _
  | false =>
    obtain ⟨hopen, hasked⟩ := h.asked hclosed
    have hopened := (sound_buffer hvalid hasked.pulls).opened
    rw [kept, hopen, if_neg Bool.false_ne_true] at hb
    rcases hasked.erred e rfl with ⟨f, hf, rfl⟩ | ⟨hlive, hlt, cause, hcause, rfl⟩
    · exact .buffer hb (by rw [Buffer.refusal, show (t.buffer l.count).failure = some f from hf])
    · rw [← hprogress.count_eq] at hlt hcause
      exact .source hb (Buffer.refusal_of_live hlive.1 hopened) hlt hcause

theorem Answers.hasNextBy (h : t.Answers feed s k c.position l r s') (hc : c.feed = feed)
    (ho : c.obstacle? = none) : c.hasNextBy Feeds.draw s = (r, s') := by
  induction c with
  | plain other id head =>
    obtain rfl : other = feed := hc
    have hopen : ¬ head.closed := by
      intro hclosed
      simp [Cursor.obstacle?, hclosed] at ho
    rw [← h.hasNext]
    unfold Cursor.hasNextBy Head.hasNext
    simp only [if_neg hopen]
    rfl
  | managed janitor released inner ih =>
    have hlive : ¬ released := by
      intro hreleased
      simp [Cursor.obstacle?, hreleased] at ho
    rw [Cursor.hasNextBy, if_neg hlive]
    exact ih h hc (by simpa [Cursor.obstacle?, hlive] using ho)
  | watched slot act inner ih => exact ih h hc ho

theorem Answers.nextBy (h : t.Answers feed s k c.position l r s') (hc : c.feed = feed)
    (ho : c.obstacle? = none) : ∃ d, c.nextBy Feeds.draw s =
      (Head.taken (t.items l.count) c.position r, d, s') ∧ d.feed = feed ∧ d.obstacle? = none ∧
        d.position = if r = .ok true then c.position + 1 else c.position := by
  induction c with
  | plain other id head =>
    obtain rfl : other = feed := hc
    have hopen : head.closed = false := by
      by_contra hclosed
      simp [Cursor.obstacle?, hclosed] at ho
    obtain ⟨head', hopen', hposition, hnext⟩ := h.next id head hopen rfl
    exact ⟨.plain other id head', hnext, rfl, by simp [Cursor.obstacle?, hopen'], hposition⟩
  | managed janitor released inner ih =>
    have hlive : ¬ released := by
      intro hreleased
      simp [Cursor.obstacle?, hreleased] at ho
    obtain ⟨d, hnext, hfeed, hd, hposition⟩ := ih h hc (by simpa [Cursor.obstacle?, hlive] using ho)
    refine ⟨.managed janitor released d, ?_, hfeed, ?_, hposition⟩
    · rw [Cursor.nextBy, if_neg hlive, hnext]
      rfl
    · rw [Cursor.obstacle?, if_neg hlive, hd]
  | watched slot act inner ih =>
    obtain ⟨d, hnext, hfeed, hd, hposition⟩ := ih h hc ho
    refine ⟨.watched slot act d, ?_, hfeed, hd, hposition⟩
    rw [Cursor.nextBy, hnext]
    rfl

/-- The result of one step, with the reason if there is no item. -/
inductive Steps (t : Supply α) (feed : Nat) (c : Cursor) (k l : Progress) (s' : Feeds α) :
    Outcome StreamError (Option α) → Cursor → Prop
  | item {a : α} {d : Cursor} (ha : (t.items l.count)[c.position]? = some a)
    (hd : d.position = c.position + 1) : Steps t feed c k l s' (.ok (some a)) d
  | ended (h : t.Ended l.count c.position)
    (hrest : Cursor.reader.step (c, s') = (.ok none, c, s')) : Steps t feed c k l s' (.ok none) c
  | obstructed {e : StreamError} (h : t.Obstructs feed c k.count s' e) : Steps t feed c k l s' (.raise e) c

theorem AtProgress.step (hvalid : t.config.validate = .ok ()) (hpanicFree : t.PanicFree)
    (h : t.AtProgress feed base s k) (hc : c.feed = feed) : ∃ l r d s',
      Cursor.reader.step (c, s) = (r, d, s') ∧
      k ≤ l ∧ t.AtProgress feed base s' l ∧ d.feed = feed ∧ d.obstacle? = c.obstacle? ∧
      (t.kept l).consumed ≤ max (t.kept k).consumed (c.position + 1) ∧ t.Steps feed c k l s' r d := by
  cases ho : c.obstacle? with
  | some e =>
    have hb : s.buffer? c.feed = some (t.kept k) := hc ▸ h.buffer?_eq
    have hhas : c.hasNextBy Feeds.draw s = (.raise (c.obstacle?.getD e), s) :=
      Cursor.hasNextBy_of_refusal hb fun hn => nomatch ho.symm.trans hn
    rw [ho, Option.getD_some] at hhas
    refine ⟨k, .raise e, c, s, ?_, le_rfl, h, hc, ho, le_max_left _ _, .obstructed (.cursor ho)⟩
    simp only [Cursor.reader, Cursor.stepBy, hhas]
    rfl
  | none =>
    obtain ⟨l, r, s', hprogress, hanswers⟩ := h.answers hvalid c.position
    have hle := hanswers.le
    have hconsumed := hanswers.consumed_le hvalid h.pulls
    have hhas := hanswers.hasNextBy hc ho
    have hpromises : ∀ {found : Bool}, c.hasNextBy Feeds.draw s = (.ok found, s') →
        c.Promises Feeds.draw s found s' := by
      refine Cursor.promises Feeds.endsNothing_draw fun b hb => ?_
      obtain rfl := Option.some.inj (h.buffer?_eq.symm.trans (hc ▸ hb))
      exact consistent_kept hvalid h.pulls
    rcases r with (e | panic) | _ | _
    · refine ⟨l, .raise e, c, s', ?_, hle, hprogress, hc, ho, hconsumed,
        .obstructed (hanswers.obstructs hvalid hprogress c)⟩
      simp only [Cursor.reader, Cursor.stepBy, hhas]
      rfl
    · exfalso
      cases hclosed : k.closed with
      | true =>
        obtain ⟨-, -, hr⟩ := hanswers.shut hclosed
        cases hr
      | false =>
        obtain ⟨-, -, hpanicked⟩ := (hanswers.asked hclosed).2.panicked panic rfl
        exact hpanicFree _ _ hpanicked
    · refine ⟨l, .ok none, c, s', ?_, hle, hprogress, hc, ho, hconsumed,
        .ended (hanswers.ended hvalid) ?_⟩
      · simp only [Cursor.reader, Cursor.stepBy, hhas]
      · simp only [Cursor.reader, Cursor.stepBy, (hpromises hhas).again]
    · obtain ⟨d, hnext, hfeed, hd, hposition⟩ := hanswers.nextBy hc ho
      obtain ⟨-, a, -, -, -, ha⟩ := hanswers.found hvalid
      refine ⟨l, .ok (some a), d, s', ?_, hle, hprogress, hfeed, hd, hconsumed, .item ha hposition⟩
      simp only [Cursor.reader, Cursor.stepBy, hhas, ← (hpromises hhas).direct, hnext, Head.taken, ha]
      rfl

/-- The slice that a walk yields, with the reason if it is shorter than asked. -/
structure Walks (t : Supply α) (feed : Nat) (base : Array Event) (c : Cursor) (k l : Progress)
    (w : Walk α (Cursor × Feeds α)) : Prop where
  le : k ≤ l
  atProgress : t.AtProgress feed base w.rest.2 l
  stays : w.rest.1.feed = feed
  obstacle : w.rest.1.obstacle? = c.obstacle?
  got : StretchAt (t.items l.count) c.position w.got
  position : w.rest.1.position = c.position + w.got.length
  consumed : (t.kept l).consumed ≤ max (t.kept k).consumed (c.position + w.steps)
  still : w.got = [] → w.rest.1 = c
  ended : w.finish = .ended → t.Ended l.count w.rest.1.position ∧
    Cursor.reader.step w.rest = (.ok none, w.rest)
  stopped : ∀ stop, w.finish = .stopped stop →
    ∃ e, stop = .error e ∧ t.Obstructs feed w.rest.1 k.count w.rest.2 e

theorem Walks.rests {w : Walk α (Cursor × Feeds α)} (h : t.Walks feed base c k l w) :
    w.Rests Cursor.reader where
  panicFree p hp := by
    obtain ⟨e, he, -⟩ := h.stopped _ hp
    cases he
  ended hended := (h.ended hended).2

theorem AtProgress.walk (hvalid : t.config.validate = .ok ()) (hpanicFree : t.PanicFree)
    (h : t.AtProgress feed base s k) (hc : c.feed = feed) (steps : Nat) :
    ∃ l, t.Walks feed base c k l (Cursor.reader.walk steps (c, s)) := by
  induction steps generalizing c s k with
  | zero =>
    refine ⟨k, le_rfl, h, hc, rfl, .nil _ _, rfl, le_max_left _ _, fun _ => rfl, ?_, ?_⟩
    · rintro ⟨⟩
    · rintro stop ⟨⟩
  | succ steps ih =>
    obtain ⟨l, r, d, s', hstep, hle, h', hd, ho, hconsumed, hbrings⟩ := h.step hvalid hpanicFree hc
    cases hbrings with
    | @item a _ ha hposition =>
      rw [Reader.walk_item hstep]
      obtain ⟨m, hm⟩ := ih h' hd
      have ha' := getElem?_mono (delivered_mono t.outcomes hm.le.2.1) ha
      have hsteps := Reader.steps_walk Cursor.reader steps (d, s')
      generalize Cursor.reader.walk steps (d, s') = w at hm hsteps ⊢
      refine ⟨m, hle.trans hm.le, hm.atProgress, hm.stays, hm.obstacle.trans ho, .cons ha' ?_, ?_, ?_, nofun,
        hm.ended, fun stop hstop => ?_⟩
      · rw [← hposition]
        exact hm.got
      · have hend := hm.position
        simp only [Walk.after, List.length_cons]
        omega
      · have hend := hm.consumed
        simp only [Walk.after]
        omega
      · obtain ⟨e, he, hobstructs⟩ := hm.stopped stop hstop
        exact ⟨e, he, hobstructs.mono hle.2.1⟩
    | ended hended hrest =>
      rw [Reader.walk_ended hstep]
      refine ⟨l, hle, h', hc, rfl, .nil _ _, rfl, ?_, fun _ => rfl, fun _ => ⟨hended, hrest⟩, ?_⟩
      · dsimp only
        omega
      · rintro stop ⟨⟩
    | obstructed hobstructs =>
      rw [Reader.walk_stopped hstep]
      refine ⟨l, hle, h', hc, rfl, .nil _ _, rfl, ?_, fun _ => rfl, ?_, ?_⟩
      · dsimp only
        omega
      · rintro ⟨⟩
      · rintro stop ⟨⟩
        exact ⟨_, rfl, hobstructs⟩

/-- The slice that consecutive walks yield. -/
structure WalkSequence (t : Supply α) (feed : Nat) (base : Array Event) (c : Cursor) (k l : Progress)
    (ws : List (Walk α (Cursor × Feeds α))) (y : Cursor × Feeds α) : Prop where
  le : k ≤ l
  atProgress : t.AtProgress feed base y.2 l
  stays : y.1.feed = feed
  obstacle : y.1.obstacle? = c.obstacle?
  got : StretchAt (t.items l.count) c.position (ws.flatMap Walk.got)
  position : y.1.position = c.position + (ws.flatMap Walk.got).length
  rests : ∀ w ∈ ws, w.Rests Cursor.reader
  ended : (∃ w ∈ ws, w.finish = .ended) → t.Ended l.count y.1.position

theorem AtProgress.walks (hvalid : t.config.validate = .ok ()) (hpanicFree : t.PanicFree)
    (h : t.AtProgress feed base s k) (hc : c.feed = feed) (ns : List Nat) : ∃ l,
      t.WalkSequence feed base c k l (Cursor.reader.walks ns (c, s)).1 (Cursor.reader.walks ns (c, s)).2 := by
  induction ns generalizing c s k with
  | nil =>
    refine ⟨k, le_rfl, h, hc, rfl, .nil _ _, rfl, nofun, ?_⟩
    rintro ⟨w, hw, -⟩
    cases hw
  | cons n ns ih =>
    obtain ⟨l, hl⟩ := h.walk hvalid hpanicFree hc n
    obtain ⟨m, hm⟩ := ih hl.atProgress hl.stays
    rw [Prod.mk.eta] at hm
    rw [Reader.walks, inTurn]
    dsimp only
    rw [← Reader.walks]
    generalize Cursor.reader.walk n (c, s) = w at hl hm ⊢
    have hmono : t.items l.count <+: t.items m.count := delivered_mono t.outcomes hm.le.2.1
    refine ⟨m, hl.le.trans hm.le, hm.atProgress, hm.stays, hm.obstacle.trans hl.obstacle, ?_, ?_, ?_, ?_⟩
    · have hrest := hm.got
      rw [hl.position] at hrest
      exact (hl.got.mono hmono).append hrest
    · rw [hm.position, hl.position, List.flatMap_cons, List.length_append, Nat.add_assoc]
    · intro v hv
      rcases List.mem_cons.mp hv with rfl | hv
      · exact hl.rests
      · exact hm.rests v hv
    · rintro ⟨v, hv, hended⟩
      rcases List.mem_cons.mp hv with rfl | hv
      · refine (hl.ended hended).1.mono hm.le.2.1 ?_
        rw [hm.position]
        exact Nat.le_add_right _ _
      · exact hm.ended ⟨v, hv, hended⟩

theorem WalkSequence.eq_drop (hvalid : t.config.validate = .ok ()) {ws : List (Walk α (Cursor × Feeds α))}
    {y : Cursor × Feeds α} (h : t.WalkSequence feed base c k l ws y) (hended : ∃ w ∈ ws, w.finish = .ended) :
    ∃ n, t.EndsAt n ∧ ws.flatMap Walk.got = (t.items n).drop c.position := by
  obtain ⟨n, -, hends, hle⟩ := h.ended hended
  refine ⟨n, hends, (h.got.mono (hends.items_prefix hvalid h.atProgress.pulls)).eq_drop ?_⟩
  rwa [← h.position]

/-- The source ends, and the buffer can store it. -/
structure Fits (t : Supply α) (n : Nat) : Prop where
  ends : t.EndsAt n
  most : (t.items n).length ≤ t.config.most

theorem Fits.failure_eq_none (hvalid : t.config.validate = .ok ()) (h : t.Fits n)
    (hpulls : t.start.Pulls t.outcomes count) : (t.buffer count).failure = none := by
  cases hf : (t.buffer count).failure with
  | none => rfl
  | some f =>
    obtain ⟨⟨most, hmost, hlength⟩, -⟩ := length_items_of_failure hvalid hpulls hf
    have hle : ((t.items count).length : ℕ∞) ≤ most := by
      rw [← hmost]
      exact le_trans (by exact_mod_cast (h.ends.items_prefix hvalid hpulls).length_le) h.most
    rw [hlength] at hle
    exact absurd (by exact_mod_cast hle) (Nat.not_succ_le_self most)

theorem Walks.lt_of_stopped (hvalid : t.config.validate = .ok ()) (hfits : t.Fits n)
    {w : Walk α (Cursor × Feeds α)} {stop : Stop StreamError} (h : t.Walks feed base c k l w)
    (hopen : k.closed = false) (ho : c.obstacle? = none) (hstop : w.finish = .stopped stop) :
    k.count < l.count ∧ l.count ≤ n := by
  obtain ⟨e, -, hobstructs⟩ := h.stopped stop hstop
  have hle := hfits.ends.count_le hvalid h.atProgress.pulls
  have hcount := h.atProgress.count_eq
  cases hobstructs with
  | cursor hobstacle =>
    rw [h.obstacle, ho] at hobstacle
    cases hobstacle
  | buffer hb hrefusal =>
    obtain rfl := Option.some.inj (h.atProgress.buffer?_eq.symm.trans hb)
    rw [kept, h.le.1, hopen, if_neg Bool.false_ne_true, Buffer.refusal_of_live
      (hfits.failure_eq_none hvalid h.atProgress.pulls)
        (sound_buffer hvalid h.atProgress.pulls).opened] at hrefusal
    cases hrefusal
  | source _ _ hlt hcause =>
    rw [hcount] at hlt hcause
    refine ⟨hlt, Nat.le_of_lt_succ (hle.lt_of_ne ?_)⟩
    intro heq
    rw [heq, Nat.add_sub_cancel, hfits.ends.finished] at hcause
    cases hcause

/-- Each walk yields items, uses up a fault or reaches the end, so one of them reaches the end. -/
theorem AtProgress.exists_ended (hvalid : t.config.validate = .ok ()) (hpanicFree : t.PanicFree)
    (hfits : t.Fits n)
    (h : t.AtProgress feed base s k) (hc : c.feed = feed) (hopen : k.closed = false) (ho : c.obstacle? = none)
    {ns : List Nat} (hpos : ∀ steps ∈ ns, 0 < steps)
    (hmany : (t.items n).length - c.position + (n - k.count) < ns.length) :
    ∃ w ∈ (Cursor.reader.walks ns (c, s)).1, w.finish = .ended ∧ w.got = [] := by
  induction ns generalizing c s k with
  | nil => cases hmany
  | cons steps ns ih =>
    obtain ⟨l, hl⟩ := h.walk hvalid hpanicFree hc steps
    have hsteps := hpos steps List.mem_cons_self
    have hwalk := Reader.steps_walk Cursor.reader steps (c, s)
    have hmeasured := Reader.measured_walk Cursor.reader steps (c, s)
    rw [Reader.walks, inTurn]
    dsimp only
    rw [← Reader.walks]
    generalize Cursor.reader.walk steps (c, s) = w at hl hwalk hmeasured ⊢
    -- a walk that does not reach the end leaves fewer items or fewer faults for the walks after it
    have hrest : (t.items n).length - w.rest.1.position + (n - l.count) <
        (t.items n).length - c.position + (n - k.count) →
          ∃ v ∈ (Cursor.reader.walks ns w.rest).1, v.finish = .ended ∧ v.got = [] := by
      intro hless
      rw [List.length_cons] at hmany
      exact ih (c := w.rest.1) hl.atProgress hl.stays (hl.le.1.trans hopen) (hl.obstacle.trans ho)
        (fun steps hmem => hpos steps (List.mem_cons_of_mem _ hmem)) (by omega)
    have hmono : k.count ≤ l.count := hl.le.2.1
    have hlength := (hl.got.mono (hfits.ends.items_prefix hvalid hl.atProgress.pulls)).length_le
    have hposition := hl.position
    have hgot : w.got ≠ [] → ∃ v ∈ (Cursor.reader.walks ns w.rest).1, v.finish = .ended ∧ v.got = [] := by
      intro hgot
      have hsome := List.length_pos_iff.mpr hgot
      exact hrest (by omega)
    have hlater : (∃ v ∈ (Cursor.reader.walks ns w.rest).1, v.finish = .ended ∧ v.got = []) →
        ∃ v ∈ w :: (Cursor.reader.walks ns w.rest).1, v.finish = .ended ∧ v.got = [] := by
      rintro ⟨v, hv, hfinish⟩
      exact ⟨v, List.mem_cons_of_mem _ hv, hfinish⟩
    cases hfinish : w.finish with
    | spent =>
      refine hlater (hgot fun hnil => ?_)
      have hspent := hmeasured.spent hfinish
      rw [hnil, hwalk] at hspent
      exact absurd hspent (Nat.ne_of_lt hsteps)
    | ended =>
      by_cases hnil : w.got = []
      · exact ⟨w, List.mem_cons_self, hfinish, hnil⟩
      · exact hlater (hgot hnil)
    | stopped stop =>
      obtain ⟨hlt, hle⟩ := hl.lt_of_stopped hvalid hfits hopen ho hfinish
      exact hlater (hrest (by omega))

theorem AtProgress.iterate_eq (hvalid : t.config.validate = .ok ()) (hpanicFree : t.PanicFree)
    (h : t.AtProgress feed base s k) (hc : c.feed = feed) (ns : List Nat) :
    inTurn Cursor.reader.iterate ns (c, s) =
      ((Cursor.reader.walks ns (c, s)).1.map fun w => .ok w.entries, (Cursor.reader.walks ns (c, s)).2) := by
  let I : Cursor × Feeds α → Prop := fun x => x.1.feed = feed ∧ ∃ k, t.AtProgress feed base x.2 k
  have hwalk : ∀ n x, I x → ∃ k l, t.Walks feed base x.1 k l (Cursor.reader.walk n x) := by
    rintro n ⟨c, s⟩ ⟨hc, k, h⟩
    obtain ⟨l, hl⟩ := h.walk hvalid hpanicFree hc n
    exact ⟨k, l, hl⟩
  refine inTurn_map (I := I) (fun n x hx => ?_) (fun n x hx => ?_) ns ⟨hc, k, h⟩
  · obtain ⟨k, l, hl⟩ := hwalk n x hx
    exact ⟨hl.stays, l, hl.atProgress⟩
  · obtain ⟨k, l, hl⟩ := hwalk n x hx
    rw [Reader.iterate, Items.take_eq_walk hl.rests]

theorem AtProgress.iterated_eq_drop (hvalid : t.config.validate = .ok ()) (hpanicFree : t.PanicFree)
    (h : t.AtProgress feed base s k) (hc : c.feed = feed) (calls : List Nat)
    (hclean : EndsClean (inTurn Cursor.reader.iterate calls (c, s)).1) : ∃ n, t.EndsAt n ∧
      iterated (inTurn Cursor.reader.iterate calls (c, s)).1 = (t.items n).drop c.position := by
  obtain ⟨l, hl⟩ := h.walks hvalid hpanicFree hc calls
  rw [h.iterate_eq hvalid hpanicFree hc] at hclean ⊢
  rw [Walk.iterated_entries]
  exact hl.eq_drop hvalid ((Walk.endsClean_iff (Cursor.reader.measured_walks calls _) hl.rests).mp hclean)

end Supply
end Replay
