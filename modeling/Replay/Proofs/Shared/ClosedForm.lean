import Mathlib.Data.ENat.Basic
import Replay.Proofs.Shared.Faithful

/-!
Every read in closed form. Over an error-free source the answer at an offset is determined by the
offset, the number of items and the configured capacity.
-/
namespace Replay

variable {α : Type}

/-- The outcomes bring the items `x` below `n`, which may be infinite, and end there. -/
structure Brings (outcomes : Nat → Pull α) (n : ℕ∞) (x : Nat → α) : Prop where
  item : ∀ i : Nat, i < n → outcomes i = .item (x i)
  finished : ∀ i : Nat, n = i → outcomes i = .finished

namespace Config

def most (c : Config) : ℕ∞ :=
  if c.increment = 0 then c.initial else c.limit.count?.elim ⊤ fun limit => limit

/-- The error with which a buffer fails that is given more items than it keeps. -/
inductive Overflow (c : Config) : StreamError → Prop where
  | growthDisabled (h : c.increment = 0) : c.Overflow (.bufferGrowthDisabled c.initial)
  | sizeExceeded {limit : Nat} (h : c.increment ≠ 0) (hl : c.limit.count? = some limit) :
    c.Overflow (.bufferSizeExceeded limit)

/-- The answer of `has_next` at an offset of a source of `n` items. -/
inductive Answer (c : Config) (n : ℕ∞) (offset : Nat) : Outcome StreamError Bool → Prop where
  | found (h : offset < n) (hm : offset < c.most) : c.Answer n offset (.ok true)
  | ended (h : n ≤ offset) (hm : n ≤ c.most) : c.Answer n offset (.ok false)
  | overflow {e : StreamError} (he : c.Overflow e) (h : c.most ≤ offset) (hm : c.most < n) :
    c.Answer n offset (.raise e)

end Config

namespace Supply

variable {t : Supply α} {n : ℕ∞} {x : Nat → α} {count : Nat}

theorem after_brings (hvalid : t.config.validate = .ok ()) (hx : Brings t.outcomes n x)
    (hp : t.start.Pulls t.outcomes count) :
    ((count : ℕ∞) ≤ n ∧ (t.buffer count).exhausted = false ∧
      t.items count = (List.range count).map x) ∨
    ∃ total : Nat, n = total ∧ count = total + 1 ∧ (t.buffer count).exhausted ∧
      t.items count = (List.range total).map x := by
  induction count with
  | zero => exact .inl ⟨by simp, rfl, rfl⟩
  | succ count ih =>
    obtain ⟨hf, hopen⟩ := hp count (Nat.lt_succ_self _)
    have hsound := (Buffer.sound_after (sound_start hvalid) (hp.mono (Nat.le_succ _))).2
    have hitems : t.items (count + 1) = t.items count ++ (t.outcomes count).item?.toList :=
      delivered_succ _ _
    rcases ih (hp.mono (Nat.le_succ _)) with ⟨hle, -, hcount⟩ | ⟨total, -, -, hexhausted, -⟩
    · rcases hle.lt_or_eq with hlt | heq
      · have ho := hx.item count hlt
        refine .inl ⟨?_, ?_, ?_⟩
        · exact_mod_cast Order.add_one_le_of_lt hlt
        · rw [buffer, Buffer.after, ho]
          exact (hsound.append hf (x count)).2.2.1.trans hopen
        · rw [hitems, hcount, ho, List.range_succ, List.map_append]
          rfl
      · have ho := hx.finished count heq.symm
        refine .inr ⟨count, heq.symm, rfl, ?_, ?_⟩
        · rw [buffer, Buffer.after, ho]
          rfl
        · rw [hitems, hcount, ho]
          exact List.append_nil _
    · rw [buffer] at hexhausted
      rw [hopen] at hexhausted
      cases hexhausted

theorem length_items_le (hvalid : t.config.validate = .ok ())
    (hp : t.start.Pulls t.outcomes count) (hf : (t.buffer count).failure = none) :
    ((t.items count).length : ℕ∞) ≤ t.config.most := by
  have hsound := sound_buffer hvalid hp
  have hlayout := layout_buffer hvalid hp
  have hstanding := hsound.standing
  simp only [Buffer.Standing, hf, limit_buffer hvalid hp] at hstanding
  obtain ⟨hlength, hwithin⟩ := hstanding
  unfold Config.most
  split
  · rename_i hflat
    have habove := (hsound.holds_all hf).above
    rw [hlayout] at habove
    exact_mod_cast habove.trans (t.layout.start_le_initial hflat _)
  · cases hcount : t.config.limit.count? with
    | none => exact le_top
    | some limit =>
      have hle := hlength.le.trans (hwithin limit hcount)
      simpa using hle

theorem length_items_of_failure (hvalid : t.config.validate = .ok ())
    (hp : t.start.Pulls t.outcomes count) {f : Failure} (hf : (t.buffer count).failure = some f) :
    (∃ most : Nat, t.config.most = most ∧ (t.items count).length = most + 1) ∧
      t.config.Overflow f.error := by
  have hsound := sound_buffer hvalid hp
  have hlayout := layout_buffer hvalid hp
  have hstanding := hsound.standing
  simp only [Buffer.Standing, hf, limit_buffer hvalid hp, layout_buffer hvalid hp] at hstanding
  cases f with
  | sizeExceeded limit =>
    obtain ⟨hgiven, hconsumed, hcount, hgrows⟩ := hstanding
    have hgrows' : t.config.increment ≠ 0 := hgrows
    refine ⟨⟨limit, by simp [Config.most, hgrows', hcount], hgiven.trans hconsumed⟩, ?_⟩
    exact .sizeExceeded hgrows' hcount
  | growthDisabled capacity =>
    obtain ⟨hgiven, hconsumed, rfl, hflat⟩ := hstanding
    have hflat' : t.config.increment = 0 := hflat
    refine ⟨⟨t.config.initial, by simp [Config.most, hflat'], ?_⟩, .growthDisabled hflat'⟩
    exact hgiven.trans (congrArg (· + 1) hconsumed)

theorem length_items_le_pulls (hvalid : t.config.validate = .ok ()) (hx : Brings t.outcomes n x)
    (hp : t.start.Pulls t.outcomes count) :
    (t.items count).length ≤ count ∧ ((t.items count).length : ℕ∞) ≤ n := by
  rcases after_brings hvalid hx hp with ⟨hle, -, hitems⟩ | ⟨total, rfl, rfl, -, hitems⟩
  · rw [hitems, List.length_map, List.length_range]
    exact ⟨le_rfl, hle⟩
  · rw [hitems, List.length_map, List.length_range]
    exact ⟨Nat.le_succ _, le_rfl⟩

theorem outcome_of_pulls (hvalid : t.config.validate = .ok ()) (hx : Brings t.outcomes n x)
    (hp : t.start.Pulls t.outcomes (count + 1)) :
    t.outcomes count = .item (x count) ∨ t.outcomes count = .finished := by
  rcases after_brings hvalid hx hp with ⟨hle, -, -⟩ | ⟨total, htotal, hcount, -, -⟩
  · exact .inl (hx.item count (lt_of_lt_of_le (by exact_mod_cast Nat.lt_succ_self count) hle))
  · obtain rfl : count = total := Nat.succ_inj.mp hcount
    exact .inr (hx.finished count htotal)

theorem length_items_of_asked (hvalid : t.config.validate = .ok ()) (hx : Brings t.outcomes n x)
    {offset more : Nat} {r : Outcome StreamError Bool} (hf : (t.buffer count).failure = none)
    (h : t.start.Asked t.outcomes count offset more r) (hlt : count < more) :
    (t.items more).length ≤ offset + 1 := by
  have hcount := h.pulls.mono hlt.le
  have hlength : (t.items count).length = (t.buffer count).consumed :=
    (sound_buffer hvalid hcount).length_eq hf
  have hmore := (length_items_le_pulls hvalid hx h.pulls).1
  have hadd : more ≤ count + (offset + 1 - (t.buffer count).consumed) := h.le_add
  rcases after_brings hvalid hx hcount with ⟨-, -, hitems⟩ | ⟨total, -, -, hexhausted, -⟩
  · rw [hitems, List.length_map, List.length_range] at hlength
    omega
  · have hopen : (t.buffer count).exhausted = false := (h.pulls count hlt).2
    rw [hexhausted] at hopen
    cases hopen

theorem answer_of_asked (hvalid : t.config.validate = .ok ()) (hx : Brings t.outcomes n x)
    {offset more : Nat} {r : Outcome StreamError Bool} (hf : (t.buffer count).failure = none)
    (h : t.start.Asked t.outcomes count offset more r) : t.config.Answer n offset r := by
  have hn := (length_items_le_pulls hvalid hx h.pulls).2
  have hconsumed : (t.buffer more).failure = none →
      (t.items more).length = (t.buffer more).consumed :=
    (sound_buffer hvalid h.pulls).length_eq
  -- over an error-free source a pull brings an item or the end
  have hsource : ∀ o, count < more → t.outcomes (more - 1) = o → o.item? = none → o ≠ .finished →
      False := by
    rintro o hlt rfl hitem hfinished
    obtain ⟨last, rfl⟩ := Nat.exists_eq_add_one_of_ne_zero (Nat.ne_of_gt (Nat.zero_lt_of_lt hlt))
    rcases outcome_of_pulls hvalid hx h.pulls with ho | ho
    · simp [ho, Pull.item?] at hitem
    · exact hfinished ho
  rcases r with (e | p) | found
  · rcases h.erred e rfl with ⟨f, hf', rfl⟩ | ⟨-, hlt, c, ho, -⟩
    · have hlt : count < more := by
        refine h.count_le.lt_of_ne ?_
        rintro rfl
        rw [buffer, hf'] at hf
        cases hf
      obtain ⟨⟨most, hmost, hlength⟩, hoverflow⟩ := length_items_of_failure hvalid h.pulls hf'
      have hoffset := length_items_of_asked hvalid hx hf h hlt
      rw [hlength] at hn hoffset
      refine .overflow hoverflow ?_ ?_
      · rw [hmost]
        exact_mod_cast Nat.le_of_succ_le_succ hoffset
      · rw [hmost]
        exact lt_of_lt_of_le (by exact_mod_cast Nat.lt_succ_self most) hn
    · exact (hsource _ hlt ho rfl (by rintro ⟨⟩)).elim
  · obtain ⟨-, hlt, ho⟩ := h.panicked p rfl
    exact (hsource _ hlt ho rfl (by rintro ⟨⟩)).elim
  · cases found with
    | true =>
      obtain ⟨hf', hlt⟩ := h.found rfl
      have hlt' : (offset : ℕ∞) < (t.items more).length := by
        exact_mod_cast hlt.trans_eq (hconsumed hf').symm
      exact .found (hlt'.trans_le hn) (hlt'.trans_le (length_items_le hvalid h.pulls hf'))
    | false =>
      obtain ⟨hf', hexhausted, hle⟩ := h.ended rfl
      rcases after_brings hvalid hx h.pulls with ⟨-, hopen, -⟩ | ⟨total, rfl, -, -, hitems⟩
      · rw [buffer, hexhausted] at hopen
        cases hopen
      · have htotal : (t.items more).length = total := by simp [hitems]
        have hmost := length_items_le hvalid h.pulls hf'
        rw [htotal] at hmost
        refine .ended ?_ hmost
        exact_mod_cast htotal.symm.le.trans ((hconsumed hf').le.trans hle)

theorem eq_of_items (hvalid : t.config.validate = .ok ()) (hx : Brings t.outcomes n x)
    (hp : t.start.Pulls t.outcomes count) {offset : Nat} {a : α}
    (ha : (t.items count)[offset]? = some a) : a = x offset := by
  obtain ⟨m, hitems⟩ : ∃ m, t.items count = (List.range m).map x := by
    rcases after_brings hvalid hx hp with ⟨-, -, hitems⟩ | ⟨total, -, -, -, hitems⟩
    · exact ⟨count, hitems⟩
    · exact ⟨total, hitems⟩
  rw [hitems] at ha
  obtain ⟨hlt, rfl⟩ := List.getElem?_eq_some_iff.mp ha
  simp

end Supply

namespace Shared

/-- `has_next`, `bucket_for` and `next` at one offset. -/
structure Reads (s : Shared α) (offset : Nat) (has : Outcome StreamError Bool)
    (bucket : Outcome StreamError (Option Nat)) (item : Outcome StreamError α) : Prop where
  hasNext : (s.use (.hasNext offset)).1 = .flag offset has
  bucketFor : (s.use (.bucketFor offset)).1 = .bucket offset bucket
  next : ∀ i c, s.cursors[i]? = some c → c.isClosed = false → c.position = offset →
    (s.use (.cursorOp i .next)).1 = .item offset item

def Holds (s : Shared α) (held offset : Nat) : Prop :=
  ∃ b k p, s.buffer? = some b ∧ b.bucket? held = some k ∧ b.layout.locate offset = some p ∧
    k.contains p

/-- The values of all reads over `n` items `x`. -/
structure ClosedForm (c : Config) (n : ℕ∞) (x : Nat → α) (s : Shared α) : Prop where
  found : ∀ offset : Nat, offset < n → offset < c.most → ∃ held,
    s.Reads offset (.ok true) (.ok (some held)) (.ok (x offset)) ∧
      (s.use (.bucketFor offset)).2.Holds held offset
  ended : ∀ offset : Nat, n ≤ offset → n ≤ c.most →
    s.Reads offset (.ok false) (.ok none) (.raise (.endOfData offset))
  overflow : ∀ offset : Nat, c.most ≤ offset → c.most < n → ∃ e, c.Overflow e ∧
    s.Reads offset (.raise e) (.raise e) (.raise e)

end Shared

namespace Supply

variable {t : Supply α} {base : Array Event} {s : Shared α} {k l : Progress}

theorem Reached.reads (h : t.Reached base s k) {offset : Nat} {r : Outcome StreamError Bool}
    {s' : Feeds α} (ha : t.Answers s.feed s.store.feeds k offset l r s') :
    s.Reads offset r (Buffer.heldAt t.layout offset r) (Head.taken (t.items l.count) offset r) := by
  refine ⟨?_, ?_, ?_⟩
  · simp only [Shared.use, Shared.call, Store.onFeeds, Store.Call.run_modifyGet, ha.hasNext]
  · simp only [Shared.use, Shared.call, Store.onFeeds, Store.Call.run_modifyGet, ha.bucketFor]
  · intro i c hi hopen hposition
    obtain ⟨id, head, rfl⟩ := h.cursors c (List.mem_of_getElem? hi)
    obtain ⟨head', -, -, hnext⟩ := ha.next id head hopen hposition
    obtain rfl : head.position = offset := hposition
    simp only [Shared.use, hi, CursorOp.perform, Cursor.read, Store.onFeeds, Store.Call.run_bind,
      Store.Call.run_modifyGet, Store.Call.run_pure, Cursor.next, hnext]
    rfl

theorem failure_kept : (t.kept k).failure = (t.buffer k.count).failure := by
  unfold kept
  split
  · rfl
  · rfl

theorem Reached.closedForm (hvalid : t.config.validate = .ok ()) {n : ℕ∞} {x : Nat → α}
    (hx : Brings t.outcomes n x) (h : t.Reached base s k) (hopen : (t.kept k).isClosed = false) :
    s.ClosedForm t.config n x := by
  obtain ⟨hclosed, hf⟩ : (t.kept k).closed = false ∧ (t.kept k).failure.isSome = false :=
    Bool.or_eq_false_iff.mp hopen
  rw [failure_kept, Option.isSome_eq_false_iff, Option.isNone_iff_eq_none] at hf
  have hk : k.closed = false := by
    rw [← Bool.not_eq_true]
    intro hk
    simp [kept, hk, Buffer.close] at hclosed
  refine ⟨fun offset hlt hmost => ?_, fun offset hle hmost => ?_, fun offset hle hmost => ?_⟩
  · obtain ⟨l, r, s', hprogress, hanswers⟩ := h.atProgress.answers hvalid offset
    have hreads := h.reads hanswers
    cases answer_of_asked hvalid hx hf (hanswers.asked hk).2 with
    | found =>
      obtain ⟨p, a, hp, hshown, -, ha⟩ := hanswers.found hvalid
      obtain rfl := eq_of_items hvalid hx hprogress.pulls ha
      rw [Buffer.heldAt, hp, Head.taken, ha] at hreads
      obtain ⟨k, hk, hcontains⟩ := Buffer.contains_of_shown? hshown
      refine ⟨p.bucket, hreads, t.kept l, k, p, ?_, hk, ?_, hcontains⟩
      · simp only [Shared.use, Shared.call, Store.onFeeds, Store.Call.run_modifyGet,
          hanswers.bucketFor]
        exact hprogress.buffer?_eq
      · rw [layout_kept hvalid hprogress.pulls, hp]
    | ended hle => exact absurd hlt (not_lt_of_ge hle)
    | overflow _ hle => exact absurd hmost (not_lt_of_ge hle)
  · obtain ⟨l, r, s', -, hanswers⟩ := h.atProgress.answers hvalid offset
    have hreads := h.reads hanswers
    cases answer_of_asked hvalid hx hf (hanswers.asked hk).2 with
    | found hlt => exact absurd hlt (not_lt_of_ge hle)
    | ended => exact hreads
    | overflow _ _ hlt => exact absurd hlt (not_lt_of_ge hmost)
  · obtain ⟨l, r, s', -, hanswers⟩ := h.atProgress.answers hvalid offset
    have hreads := h.reads hanswers
    cases answer_of_asked hvalid hx hf (hanswers.asked hk).2 with
    | found _ hlt => exact absurd hlt (not_lt_of_ge hle)
    | ended _ hmost' => exact absurd hmost (not_lt_of_ge hmost')
    | overflow he => exact ⟨_, he, hreads⟩

end Supply

namespace Shared

/-- Over an error-free source of `n` items, every read of an open buffer is given by the closed form,
whatever was read before. A buffer with capacity for all items never fails, and one with growth disabled
never exceeds its limit. -/
theorem reads_closed_form (t : Supply α) (hvalid : t.config.validate = .ok ()) {n : ℕ∞}
    {x : Nat → α} (hx : Brings t.outcomes n x) (m : Store α) :
    ∃ s, begin m t = (.ok (), s) ∧ ∀ us, ∃ b, (s.run us).2.buffer? = some b ∧
      (b.isClosed = false → ClosedForm t.config n x (s.run us).2) ∧
      (n ≤ t.config.most → b.failure = none) ∧
      (t.config.increment = 0 → ∀ limit, b.failure ≠ some (.sizeExceeded limit)) := by
  obtain ⟨s, hs, hreached⟩ := Supply.reached_begin hvalid m
  refine ⟨s, hs, fun us => ?_⟩
  obtain ⟨k, -, h, -⟩ := hreached.run hvalid us
  refine ⟨t.kept k, h.buffer?_eq, h.closedForm hvalid hx, ?_, ?_⟩
  · intro hn
    cases hf : (t.kept k).failure with
    | none => rfl
    | some f =>
      rw [Supply.failure_kept] at hf
      obtain ⟨⟨most, hmost, hlength⟩, -⟩ := Supply.length_items_of_failure hvalid h.atProgress.pulls hf
      have hle := (Supply.length_items_le_pulls hvalid hx h.atProgress.pulls).2.trans hn
      rw [hmost, hlength] at hle
      exact absurd (by exact_mod_cast hle) (Nat.not_succ_le_self most)
  · intro hflat limit hf
    rw [Supply.failure_kept] at hf
    obtain ⟨-, hoverflow⟩ := Supply.length_items_of_failure hvalid h.atProgress.pulls hf
    cases hoverflow with
    | sizeExceeded hgrows => exact hgrows hflat

theorem reads_closed_form_three :
    ∃ s, begin {} (.counting ⟨2, 0, .unbounded, .owned⟩ 3) = (.ok (), s) ∧
      ∀ us, ∃ b, (s.run us).2.buffer? = some b ∧
        (b.isClosed = false → ClosedForm ⟨2, 0, .unbounded, .owned⟩ 3 id (s.run us).2) := by
  have hx : Brings (Supply.counting ⟨2, 0, .unbounded, .owned⟩ 3).outcomes 3 id := by
    refine ⟨fun i hi => ?_, fun i hi => ?_⟩
    · have hlt : i < 3 := by exact_mod_cast hi
      simp [Supply.counting, hlt]
    · have heq : i = 3 := by exact_mod_cast hi.symm
      simp [Supply.counting, heq]
  obtain ⟨s, hs, h⟩ := reads_closed_form _ rfl hx {}
  refine ⟨s, hs, fun us => ?_⟩
  obtain ⟨b, hb, hform, -⟩ := h us
  exact ⟨b, hb, hform⟩

end Shared
end Replay
