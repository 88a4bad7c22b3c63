import Replay.Proofs.Shared.Walking

/-!
`read` over a source that may fail repeatedly. No call loses or repeats an item: it returns the items
from the position on, fewer than requested only before the end or an error, and an error only if it has
no items. So reads of any lengths concatenate to the rest of the source.
-/
namespace Replay

variable {α : Type}

namespace Supply

/-- One `read` into `room` slots, and why it returned fewer items. -/
structure Fills (t : Supply α) (feed room : Nat) (x : Cursor × Feeds α)
    (r : Outcome StreamError (List α)) (y : Cursor × Feeds α) : Prop where
  panicFree : ∀ p, r ≠ .panic p
  got : ∀ got, r = .ok got → StretchAt (t.items (y.2.pulls feed)) x.1.position got ∧
    got.length ≤ room ∧ y.1.position = x.1.position + got.length
  erred : ∀ e, r = .raise e → y.1 = x.1 ∧ t.Obstructs feed x.1 (x.2.pulls feed) y.2 e
  ended : 0 < room → r = .ok [] → t.Ended (y.2.pulls feed) x.1.position
  short : ∀ got, r = .ok got → got.length < room → t.Ended (y.2.pulls feed) y.1.position ∨
    ∃ e, t.Obstructs feed y.1 (x.2.pulls feed) y.2 e
  ahead : ∀ b b', x.2.buffer? feed = some b → y.2.buffer? feed = some b' →
    b'.consumed ≤ max b.consumed (x.1.position + room)

/-- Consecutive `read` calls with slots of the given lengths. -/
structure ReadsOn (t : Supply α) (s : Shared α) (c : Cursor) (rooms : List Nat)
    (replies : List (Outcome StreamError (List α))) (left : Cursor × Feeds α) : Prop where
  next : ∀ room,
    t.Fills s.feed room left (Cursor.reader.fill room left).1 (Cursor.reader.fill room left).2
  got : StretchAt (t.items (left.2.pulls s.feed)) c.position (gathered replies)
  position : left.1.position = c.position + (gathered replies).length
  whole : RunsDry rooms replies → ∃ n, t.EndsAt n ∧ gathered replies = (t.items n).drop c.position
  plenty : ∀ n b, t.Fits n → c.obstacle? = none → s.buffer? = some b → b.isClosed = false →
    (∀ room ∈ rooms, 0 < room) → n + (t.items n).length < rooms.length → RunsDry rooms replies

variable {t : Supply α} {feed : Nat} {base : Array Event} {s : Feeds α} {c : Cursor} {k l : Progress}

theorem Walks.fills {w : Walk α (Cursor × Feeds α)} (h : t.Walks feed base c k l w) (hw : w.Measured)
    (hs : t.AtProgress feed base s k) : t.Fills feed w.steps (c, s) w.filled w.rest := by
  have hcount := h.atProgress.count_eq
  have hcount' : s.pulls feed = k.count := hs.count_eq
  have hahead : ∀ b b', s.buffer? feed = some b → w.rest.2.buffer? feed = some b' →
      b'.consumed ≤ max b.consumed (c.position + w.steps) := by
    intro b b' hb hb'
    obtain rfl := Option.some.inj (hs.buffer?_eq.symm.trans hb)
    obtain rfl := Option.some.inj (h.atProgress.buffer?_eq.symm.trans hb')
    exact h.consumed
  rcases h.rests.filled_cases with hfilled | ⟨e, hfinish, hgot, hfilled⟩
  · rw [hfilled]
    refine ⟨nofun, ?_, nofun, fun hroom hnil => ?_, ?_, hahead⟩
    · rintro got ⟨⟩
      rw [hcount]
      exact ⟨h.got, hw.length_le, h.position⟩
    · obtain ⟨hended, hnone⟩ := Walk.ended_of_filled hw hroom (hfilled.trans hnil)
      rw [hcount, ← h.still hnone]
      exact (h.ended hended).1
    · rintro got ⟨⟩ hshort
      rw [hcount, hcount']
      cases hfinish : w.finish with
      | spent => exact absurd (hw.spent hfinish) (Nat.ne_of_lt hshort)
      | ended => exact .inl (h.ended hfinish).1
      | stopped stop =>
        obtain ⟨e, -, hobstructs⟩ := h.stopped stop hfinish
        exact .inr ⟨e, hobstructs⟩
  · rw [hfilled]
    refine ⟨nofun, nofun, ?_, nofun, nofun, hahead⟩
    rintro e' ⟨⟩
    obtain ⟨e'', heq, hobstructs⟩ := h.stopped _ hfinish
    cases heq
    have hsame := h.still hgot
    rw [hsame] at hobstructs
    rw [hcount']
    exact ⟨hsame, hobstructs⟩

theorem AtProgress.gathered_eq (hvalid : t.config.validate = .ok ()) (hpanicFree : t.PanicFree)
    (h : t.AtProgress feed base s k) (hc : c.feed = feed) (rooms : List Nat) :
    gathered (inTurn Cursor.reader.fill rooms (c, s)).1 =
      (Cursor.reader.walks rooms (c, s)).1.flatMap Walk.got := by
  obtain ⟨l, hl⟩ := h.walks hvalid hpanicFree hc rooms
  rw [Reader.fills_eq_walks]
  exact Walk.gathered_filled hl.rests

theorem runsDry_fill_iff (rooms : List Nat) (x : Cursor × Feeds α) :
    RunsDry rooms (inTurn Cursor.reader.fill rooms x).1 ↔
      ∃ w ∈ (Cursor.reader.walks rooms x).1, 0 < w.steps ∧ w.finish = .ended ∧ w.got = [] := by
  have hsteps := Cursor.reader.map_steps_walks rooms x
  rw [Reader.fills_eq_walks, ← Walk.runsDry_iff (Cursor.reader.measured_walks rooms x), hsteps]

theorem AtProgress.gathered_eq_drop (hvalid : t.config.validate = .ok ()) (hpanicFree : t.PanicFree)
    (h : t.AtProgress feed base s k) (hc : c.feed = feed) {rooms : List Nat}
    (hdry : RunsDry rooms (inTurn Cursor.reader.fill rooms (c, s)).1) : ∃ n, t.EndsAt n ∧
      gathered (inTurn Cursor.reader.fill rooms (c, s)).1 = (t.items n).drop c.position := by
  obtain ⟨w, hw, -, hended, -⟩ := (runsDry_fill_iff rooms (c, s)).mp hdry
  obtain ⟨l, hl⟩ := h.walks hvalid hpanicFree hc rooms
  rw [h.gathered_eq hvalid hpanicFree hc]
  exact hl.eq_drop hvalid ⟨w, hw, hended⟩

theorem Reached.readsOn (hvalid : t.config.validate = .ok ()) (hpanicFree : t.PanicFree) {s : Shared α}
    (h : t.Reached base s k) (hc : c.feed = s.feed) (rooms : List Nat) :
    t.ReadsOn s c rooms (inTurn Cursor.reader.fill rooms (c, s.store.feeds)).1
      (inTurn Cursor.reader.fill rooms (c, s.store.feeds)).2 := by
  have hgathered := h.atProgress.gathered_eq hvalid hpanicFree hc rooms
  obtain ⟨l, hl⟩ := h.atProgress.walks hvalid hpanicFree hc rooms
  have hleft : (inTurn Cursor.reader.fill rooms (c, s.store.feeds)).2 =
      (Cursor.reader.walks rooms (c, s.store.feeds)).2 := by rw [Reader.fills_eq_walks]
  refine ⟨fun room => ?_, ?_, ?_, h.atProgress.gathered_eq_drop hvalid hpanicFree hc, ?_⟩
  · rw [hleft]
    obtain ⟨m, hm⟩ := hl.atProgress.walk hvalid hpanicFree hl.stays room
    have hfills := hm.fills (Cursor.reader.measured_walk room _) hl.atProgress
    rw [Reader.fill_eq_walk]
    rwa [Reader.steps_walk] at hfills
  · rw [hgathered, hleft, hl.atProgress.count_eq]
    exact hl.got
  · rw [hgathered, hleft]
    exact hl.position
  · intro n b hfits ho hb hopen hpos hmany
    obtain rfl := Option.some.inj (h.buffer?_eq.symm.trans hb)
    obtain ⟨w, hw, hended, hnone⟩ := h.atProgress.exists_ended hvalid hpanicFree hfits hc
      (closed_of_kept hopen) ho hpos (by omega)
    have hsteps : w.steps ∈ rooms := by
      rw [← Cursor.reader.map_steps_walks rooms (c, s.store.feeds)]
      exact List.mem_map_of_mem hw
    exact (runsDry_fill_iff rooms _).mpr ⟨w, hw, hpos _ hsteps, hended, hnone⟩

end Supply

namespace Shared

/-- Consecutive reads of any lengths, over a source that fails any number of times, each return the
items from the position on, and their concatenation has no gap. Once a read with room returns no items
and no error, the concatenation is the rest of the source; after finitely many retries this happens. -/
theorem fills_lose_nothing (t : Supply α) (hvalid : t.config.validate = .ok ()) (hpanicFree : t.PanicFree)
    (m : Store α) : ∃ s₀, begin m t = (.ok (), s₀) ∧ ∀ us (c : Cursor), c.feed = (s₀.run us).2.feed →
      let s := (s₀.run us).2
      let fills rooms := inTurn Cursor.reader.fill rooms (c, s.store.feeds)
      let iterations calls := inTurn Cursor.reader.iterate calls (c, s.store.feeds)
      ∀ rooms, t.ReadsOn s c rooms (fills rooms).1 (fills rooms).2 ∧ (RunsDry rooms (fills rooms).1 →
        (∀ others, RunsDry others (fills others).1 →
          gathered (fills others).1 = gathered (fills rooms).1) ∧
        ∀ calls, EndsClean (iterations calls).1 →
          iterated (iterations calls).1 = gathered (fills rooms).1) := by
  obtain ⟨s₀, hs₀, hreached⟩ := Supply.reached_begin hvalid m
  refine ⟨s₀, hs₀, fun us c hc rooms => ?_⟩
  obtain ⟨k, -, h, -⟩ := hreached.run hvalid us
  refine ⟨h.readsOn hvalid hpanicFree hc rooms, fun hdry => ?_⟩
  obtain ⟨n, hends, hall⟩ := h.atProgress.gathered_eq_drop hvalid hpanicFree hc hdry
  refine ⟨fun others hothers => ?_, fun calls hclean => ?_⟩
  · obtain ⟨n', hends', hall'⟩ := h.atProgress.gathered_eq_drop hvalid hpanicFree hc hothers
    rw [hall, hall', hends.eq hends']
  · obtain ⟨n', hends', hall'⟩ := h.atProgress.iterated_eq_drop hvalid hpanicFree hc calls hclean
    rw [hall, hall', hends.eq hends']

/-- The first of three reads stops before the error; the second retries. -/
theorem fills_lose_nothing_faltering : ∃ s₀, begin {} Supply.faltering = (.ok (), s₀) ∧
    let place := (Cursor.plain s₀.feed ⟨0⟩ {}, s₀.store.feeds)
    (inTurn Cursor.reader.fill [2, 2, 2] place).1 = [.ok [7], .ok [8], .ok []] ∧
      ∀ others, RunsDry others (inTurn Cursor.reader.fill others place).1 →
        gathered (inTurn Cursor.reader.fill others place).1 = [7, 8] := by
  obtain ⟨s₀, hs₀, h⟩ := fills_lose_nothing .faltering rfl Supply.panicFree_faltering {}
  obtain ⟨-, halike⟩ := h [] (.plain s₀.feed ⟨0⟩ {}) rfl [2, 2, 2]
  obtain rfl : (begin {} .faltering).2 = s₀ := congrArg Prod.snd hs₀
  have hdry : RunsDry [2, 2, 2] [.ok [7], .ok [8], .ok ([] : List Nat)] :=
    ⟨2, Nat.two_pos, List.mem_cons_of_mem _ (List.mem_cons_of_mem _ List.mem_cons_self)⟩
  exact ⟨_, hs₀, rfl, (halike hdry).1⟩

end Shared
end Replay
