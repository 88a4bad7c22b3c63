import Replay.Proofs.Shared.Walking

/-!
`Items` over a source that may fail repeatedly. An iteration yields the items from the position of its
cursor on, then `None` for good, or one error and then `None`. After a source error a new iteration
continues at the item that was not yielded.
-/
namespace Replay

variable {α : Type}

namespace Supply

/-- The results of `calls` calls of `Items::next`, and the state after them. -/
inductive Iterates (t : Supply α) (feed calls : Nat) (x : Cursor × Feeds α) :
    List (Option (Except StreamError α)) → Items (Cursor × Feeds α) → Prop
  | going {got : List α} {y : Cursor × Feeds α}
    (hgot : StretchAt (t.items (y.2.pulls feed)) x.1.position got)
    (hposition : y.1.position = x.1.position + got.length) (hcalls : got.length = calls) :
    Iterates t feed calls x (got.map fun a => some (.ok a)) ⟨y, false⟩
  | ended {got : List α} {y : Cursor × Feeds α}
    (hgot : StretchAt (t.items (y.2.pulls feed)) x.1.position got)
    (hposition : y.1.position = x.1.position + got.length) (hcalls : got.length < calls)
    (hended : t.Ended (y.2.pulls feed) y.1.position) :
    Iterates t feed calls x
      ((got.map fun a => some (.ok a)) ++ List.replicate (calls - got.length) none) ⟨y, false⟩
  | failed {got : List α} {y : Cursor × Feeds α} {e : StreamError}
    (hgot : StretchAt (t.items (y.2.pulls feed)) x.1.position got)
    (hposition : y.1.position = x.1.position + got.length) (hcalls : got.length < calls)
    (hobstructs : t.Obstructs feed y.1 (x.2.pulls feed) y.2 e) :
    Iterates t feed calls x
      ((got.map fun a => some (.ok a)) ++ some (.error e) :: List.replicate (calls - got.length - 1) none)
      ⟨y, true⟩

/-- After the first `None` every call returns `None` and does nothing. -/
def Fused (entries : List (Option (Except StreamError α))) (it : Items (Cursor × Feeds α)) : Prop :=
  none ∈ entries → ∀ calls, Items.take Cursor.reader calls it = (.ok (List.replicate calls none), it)

/-- Consecutive iterations, with the number of calls of each. -/
structure IteratesOn (t : Supply α) (s : Shared α) (c : Cursor) (calls : List Nat)
    (results : List (Except Panic (List (Option (Except StreamError α))))) (left : Cursor × Feeds α) :
    Prop where
  next : ∀ more, ∃ entries it, Items.take Cursor.reader more ⟨left, false⟩ = (.ok entries, it) ∧
    t.Iterates s.feed more left entries it ∧ Fused entries it
  got : StretchAt (t.items (left.2.pulls s.feed)) c.position (iterated results)
  position : left.1.position = c.position + (iterated results).length
  whole : EndsClean results → ∃ n, t.EndsAt n ∧ iterated results = (t.items n).drop c.position
  plenty : ∀ n b, t.Fits n → c.obstacle? = none → s.buffer? = some b → b.isClosed = false →
    (∀ more ∈ calls, 0 < more) → n + (t.items n).length < calls.length → EndsClean results

variable {t : Supply α} {feed : Nat} {base : Array Event} {s : Feeds α} {c : Cursor} {k l : Progress}

theorem Walks.iterates {w : Walk α (Cursor × Feeds α)} (h : t.Walks feed base c k l w) (hw : w.Measured)
    (hs : t.AtProgress feed base s k) : t.Iterates feed w.steps
    (c, s) w.entries ⟨w.rest, w.finish.isStopped⟩ := by
  have hgot := h.got
  rw [← h.atProgress.count_eq] at hgot
  cases hfinish : w.finish with
  | spent =>
    rw [Walk.entries_of_spent hfinish (hw.spent hfinish)]
    exact .going hgot h.position (hw.spent hfinish)
  | ended =>
    obtain ⟨hended, -⟩ := h.ended hfinish
    rw [← h.atProgress.count_eq] at hended
    rw [Walk.entries_of_ended hfinish]
    exact .ended hgot h.position (hw.short (by rw [hfinish]; rintro ⟨⟩)) hended
  | stopped stop =>
    obtain ⟨e, rfl, hobstructs⟩ := h.stopped stop hfinish
    rw [← hs.count_eq] at hobstructs
    rw [Walk.entries_of_error hfinish]
    exact .failed hgot h.position (hw.short (by rw [hfinish]; rintro ⟨⟩)) hobstructs

theorem Walks.fused {w : Walk α (Cursor × Feeds α)} (h : t.Walks feed base c k l w) (hw : w.Measured) :
    Fused w.entries ⟨w.rest, w.finish.isStopped⟩ := by
  intro hnone calls
  refine Items.take_of_idle ?_ calls
  cases hfinish : w.finish with
  | spent =>
    rw [Walk.entries_of_spent hfinish (hw.spent hfinish)] at hnone
    simp at hnone
  | ended => exact Items.next_of_rest (h.ended hfinish).2
  | stopped stop => exact Items.next_of_failed rfl

theorem Reached.iteratesOn (hvalid : t.config.validate = .ok ()) (hpanicFree : t.PanicFree) {s : Shared α}
    (h : t.Reached base s k) (hc : c.feed = s.feed) (calls : List Nat) :
    t.IteratesOn s c calls (inTurn Cursor.reader.iterate calls (c, s.store.feeds)).1
      (inTurn Cursor.reader.iterate calls (c, s.store.feeds)).2 := by
  obtain ⟨l, hl⟩ := h.atProgress.walks hvalid hpanicFree hc calls
  have hwhole := h.atProgress.iterated_eq_drop hvalid hpanicFree hc calls
  rw [h.atProgress.iterate_eq hvalid hpanicFree hc] at hwhole ⊢
  have hmeasured := Cursor.reader.measured_walks calls (c, s.store.feeds)
  refine ⟨fun more => ?_, ?_, ?_, hwhole, ?_⟩
  · obtain ⟨m, hm⟩ := hl.atProgress.walk hvalid hpanicFree hl.stays more
    have hone := Cursor.reader.measured_walk more (Cursor.reader.walks calls (c, s.store.feeds)).2
    have hiterates := hm.iterates hone hl.atProgress
    rw [Reader.steps_walk] at hiterates
    exact ⟨_, _, Items.take_eq_walk hm.rests, hiterates, hm.fused hone⟩
  · rw [Walk.iterated_entries, hl.atProgress.count_eq]
    exact hl.got
  · rw [Walk.iterated_entries]
    exact hl.position
  · intro n b hfits ho hb hopen hpos hmany
    obtain rfl := Option.some.inj (h.buffer?_eq.symm.trans hb)
    obtain ⟨w, hw, hended, -⟩ :=
      h.atProgress.exists_ended hvalid hpanicFree hfits hc (closed_of_kept hopen) ho hpos
      (by omega)
    exact (Walk.endsClean_iff hmeasured hl.rests).mpr ⟨w, hw, hended⟩

end Supply

namespace Shared

/-- An iteration over a cursor of any depth, over a source that fails any number of times, yields the
items from the position on, one for each call. It ends with `None`, or with one error followed by
`None`, and the cursor stands at the first item not yielded. Consecutive iterations concatenate to the
rest of the source once one of them ends without an error, which happens after finitely many. -/
theorem iterations_bring_rest (t : Supply α) (hvalid : t.config.validate = .ok ()) (hpanicFree : t.PanicFree)
    (m : Store α) : ∃ s₀, begin m t = (.ok (), s₀) ∧ ∀ us (c : Cursor), c.feed = (s₀.run us).2.feed →
      let s := (s₀.run us).2
      let iterations calls := inTurn Cursor.reader.iterate calls (c, s.store.feeds)
      ∀ calls, t.IteratesOn s c calls (iterations calls).1 (iterations calls).2 := by
  obtain ⟨s₀, hs₀, hreached⟩ := Supply.reached_begin hvalid m
  refine ⟨s₀, hs₀, fun us c hc calls => ?_⟩
  obtain ⟨k, -, h, -⟩ := hreached.run hvalid us
  exact h.iteratesOn hvalid hpanicFree hc calls

/-- The first of two iterations ends in the error; the second yields the rest. -/
theorem iterations_bring_rest_faltering : ∃ s₀, begin {} Supply.faltering = (.ok (), s₀) ∧
    let results := (inTurn Cursor.reader.iterate [3, 3] (Cursor.plain s₀.feed ⟨0⟩ {}, s₀.store.feeds)).1
    results = [.ok [some (.ok 7), some (.error (.source (.failed "late"))), none],
        .ok [some (.ok 8), none, none]] ∧
      ∃ n, Supply.faltering.EndsAt n ∧ iterated results = Supply.faltering.items n := by
  obtain ⟨s₀, hs₀, h⟩ := iterations_bring_rest .faltering rfl Supply.panicFree_faltering {}
  have hall := (h [] (.plain s₀.feed ⟨0⟩ {}) rfl [3, 3]).whole
  obtain rfl : (begin {} .faltering).2 = s₀ := congrArg Prod.snd hs₀
  refine ⟨_, hs₀, rfl, hall ⟨_, List.mem_cons_of_mem _ List.mem_cons_self, ?_, fun e => ?_⟩⟩
  · decide
  · simp

end Shared
end Replay
