import Replay.Proofs.Buffer.Reading

/-!
`has_next`, `bucket_for` and `next` at an offset. Only `has_next` pulls; the bucket and the item follow
from its answer, also where a head finds the item in the bucket it remembers.
-/
namespace Replay

variable {α σ : Type} {tap : Tap α σ} {outcomes : Nat → Pull α} {At : σ → Nat → List Event → Prop}

namespace Buffer

theorem hasNext_of_refusal {b : Buffer α} {e : StreamError} (h : b.refusal = some e) (offset : Nat)
    (s : σ) : b.hasNext tap offset s = (.raise e, b, s) := by
  simp [hasNext, h]

theorem bucketFor_of_refusal {b : Buffer α} {e : StreamError} (h : b.refusal = some e) (offset : Nat)
    (s : σ) : b.bucketFor tap offset s = (.raise e, b, s) := by
  simp [bucketFor, hasNext_of_refusal h, Outcome.raise]

/-- The answer of `has_next` after `more` further pulls. -/
structure Asked (start : Buffer α) (outcomes : Nat → Pull α) (count offset more : Nat)
    (r : Outcome StreamError Bool) : Prop where
  count_le : count ≤ more
  le_add : more ≤ count + (offset + 1 - (start.after outcomes count).consumed)
  pulls : start.Pulls outcomes more
  refused : ∀ f, (start.after outcomes count).failure = some f → more = count ∧ r = .raise f.error
  found : r = .ok true → (start.after outcomes more).failure = none ∧
    offset < (start.after outcomes more).consumed
  ended : r = .ok false → (start.after outcomes more).failure = none ∧
    (start.after outcomes more).exhausted ∧ (start.after outcomes more).consumed ≤ offset
  erred : ∀ e, r = .raise e →
    (∃ f, (start.after outcomes more).failure = some f ∧ e = f.error) ∨
      (start.after outcomes more).Live ∧ count < more ∧
        ∃ c, outcomes (more - 1) = .failed c ∧ e = .source c
  panicked : ∀ p, r = .panic p →
    (start.after outcomes more).Live ∧ count < more ∧ outcomes (more - 1) = .panicked p

variable {start : Buffer α} {count : Nat} {s : σ}

theorem hasNext_after (hp : tap.Plays outcomes At) (h : start.Sound []) (offset : Nat)
    (hpulls : start.Pulls outcomes count) (hat : At s count (start.events outcomes count)) :
    ∃ more s' r,
      (start.after outcomes count).hasNext tap offset s = (r, start.after outcomes more, s') ∧
        At s' more (start.events outcomes more) ∧ start.Asked outcomes count offset more r := by
  have hopened := (sound_after h hpulls).2.opened
  cases hf : (start.after outcomes count).failure with
  | some f =>
    have hrefusal : (start.after outcomes count).refusal = some f.error := by
      simp [refusal, hf]
    refine ⟨count, s, .raise f.error, hasNext_of_refusal hrefusal offset s, hat, le_rfl,
      Nat.le_add_right _ _, hpulls, ?_, ?_, ?_, ?_, ?_⟩
    · intro g hg
      rw [hf] at hg
      cases hg
      exact ⟨rfl, rfl⟩
    · intro hr
      cases hr
    · intro hr
      cases hr
    · intro e hr
      cases hr
      exact .inl ⟨f, hf, rfl⟩
    · intro p hr
      cases hr
  | none =>
    have hrefusal : (start.after outcomes count).refusal = none := by
      simp [refusal, hf, hopened]
    obtain ⟨more, s', r, hfill, hat', hfilled⟩ :=
      fill_after hp h (offset + 1 - (start.after outcomes count).consumed) hpulls hf hat
    refine ⟨more, s', r, by simp [hasNext, hrefusal, hfill], hat', hfilled.count_le, hfilled.le_add,
      hfilled.pulls, ?_, ?_, ?_, hfilled.erred, hfilled.panicked⟩
    · intro g hg
      rw [hf] at hg
      cases hg
    · intro hr
      obtain ⟨hf', hconsumed⟩ := hfilled.full hr
      exact ⟨hf', by omega⟩
    · intro hr
      obtain ⟨hf', hexhausted, hn, hconsumed⟩ := hfilled.ended hr
      exact ⟨hf', hexhausted, by omega⟩

def heldAt (l : Layout) (offset : Nat) : Outcome StreamError Bool → Outcome StreamError (Option Nat)
  | .ok true => .ok ((l.locate offset).map (·.bucket))
  | .ok false => .ok none
  | .error stop => .error stop

theorem Sound.exists_shown {b : Buffer α} {got : List α} (h : b.Sound got) (hf : b.failure = none)
    {offset : Nat} (hlt : offset < b.consumed) :
    ∃ p a, b.layout.locate offset = some p ∧ b.shown? p = some p.bucket ∧
      b.item? p.bucket p = some a ∧ got[offset]? = some a := by
  have hholds := h.holds_all hf
  rw [hholds.consumed] at hlt
  obtain ⟨p, hp, hbucket, hcontains, hitem⟩ := hholds.exists_slot hlt
  have hk := hholds.bucket p.bucket hbucket
  refine ⟨p, got[offset], hp, h.listed.shown?_eq hbucket hk hcontains, ?_,
    List.getElem?_eq_getElem hlt⟩
  simp [item?, hk, hitem]

theorem bucketFor_after (h : start.Sound []) {offset more : Nat} {s' : σ}
    {r : Outcome StreamError Bool} (hasked : start.Asked outcomes count offset more r)
    (hnext : (start.after outcomes count).hasNext tap offset s = (r, start.after outcomes more, s')) :
    (start.after outcomes count).bucketFor tap offset s =
      (heldAt start.layout offset r, start.after outcomes more, s') := by
  obtain ⟨hterms, hsound⟩ := sound_after h hasked.pulls
  have hlayout : (start.after outcomes more).layout = start.layout := congrArg Prod.fst hterms
  unfold bucketFor
  rw [hnext]
  rcases r with stop | found
  · rfl
  · cases found with
    | false => rfl
    | true =>
      obtain ⟨hf, hlt⟩ := hasked.found rfl
      obtain ⟨p, a, hp, hshown, -, -⟩ := hsound.exists_shown hf hlt
      rw [hlayout] at hp
      simp [hlayout, hp, hshown, heldAt]

end Buffer

namespace Head

def taken (got : List α) (offset : Nat) : Outcome StreamError Bool → Outcome StreamError α
  | .ok true =>
    match got[offset]? with
    | some a => .ok a
    | none => .raise (.missingItem offset)
  | .ok false => .raise (.endOfData offset)
  | .error stop => .error stop

theorem next_of_refusal {h : Head} {b : Buffer α} {e : StreamError} (hopen : h.closed = false)
    (hr : b.refusal = some e) (s : σ) : h.next tap b s = (.raise e, h, b, s) := by
  simp [next, hopen, hr]

theorem next_of_closed {h : Head} (hclosed : h.closed) (b : Buffer α) (s : σ) :
    h.next tap b s = (.raise .cursorClosed, h, b, s) := by
  simp [next, hclosed]

theorem remembered_eq {b : Buffer α} {got : List α} {h : Head} {item : Option α} (hs : b.Sound got)
    (hf : b.failure = none) (hr : h.remembered b = some item) :
    h.position < b.consumed ∧ item.isSome ∧ got[h.position]? = item := by
  have hholds := hs.holds_all hf
  simp only [remembered, Option.bind_eq_bind, Option.bind_eq_some_iff] at hr
  obtain ⟨held, hheld, p, hp, k, hk, hr⟩ := hr
  split at hr
  · rename_i hcontains
    obtain ⟨hlt, hitem⟩ := hholds.of_contains hk hp hcontains
    cases hr
    rw [hholds.consumed, hitem]
    exact ⟨hlt, rfl, List.getElem?_eq_getElem hlt⟩
  · cases hr

variable {start : Buffer α} {count : Nat} {s : σ}

/-- `next` pulls as `has_next` does and returns the item found. -/
theorem next_after (hs : start.Sound []) {h : Head} {more : Nat} {s' : σ}
    {r : Outcome StreamError Bool} (hopen : h.closed = false)
    (hpulls : start.Pulls outcomes count) (hasked : start.Asked outcomes count h.position more r)
    (hnext : (start.after outcomes count).hasNext tap h.position s =
      (r, start.after outcomes more, s')) :
    ∃ h' : Head, h'.closed = false ∧
      h'.position = (if r = .ok true then h.position + 1 else h.position) ∧
      h.next tap (start.after outcomes count) s =
        (taken (delivered outcomes more) h.position r, h', start.after outcomes more, s') := by
  obtain ⟨-, hsound⟩ := Buffer.sound_after hs hpulls
  cases hrefusal : (start.after outcomes count).refusal with
  | some e =>
    rw [Buffer.hasNext_of_refusal hrefusal, Prod.mk.injEq, Prod.mk.injEq] at hnext
    obtain ⟨rfl, hsame, rfl⟩ := hnext
    rw [← hsame]
    exact ⟨h, hopen, rfl, next_of_refusal hopen hrefusal s⟩
  | none =>
    have hf : (start.after outcomes count).failure = none := by
      rw [Buffer.refusal_eq_none_iff] at hrefusal
      simpa using (Bool.or_eq_false_iff.mp hrefusal).2
    cases hremembered : h.remembered (start.after outcomes count) with
    | some item =>
      obtain ⟨hlt, hsome, hitem⟩ := remembered_eq hsound hf hremembered
      obtain ⟨a, rfl⟩ := Option.isSome_iff_exists.mp hsome
      -- the item is stored already, so `has_next` makes no pull
      have hidle : h.position + 1 - (start.after outcomes count).consumed = 0 := by omega
      simp only [Buffer.hasNext, hrefusal, hidle, Buffer.fill, Prod.mk.injEq] at hnext
      obtain ⟨rfl, hsame, rfl⟩ := hnext
      obtain rfl : more = count := by
        have hadd := hasked.le_add
        rw [hidle] at hadd
        exact Nat.le_antisymm hadd hasked.count_le
      refine ⟨{ h with position := h.position + 1 }, hopen, rfl, ?_⟩
      simp [next, hopen, hrefusal, readAt, hremembered, present, taken, hitem]
    | none =>
      have hbucket := Buffer.bucketFor_after hs hasked hnext
      obtain ⟨hterms, hsound'⟩ := Buffer.sound_after hs hasked.pulls
      have hlayout : (start.after outcomes more).layout = start.layout := congrArg Prod.fst hterms
      rcases r with stop | found
      · refine ⟨h, hopen, rfl, ?_⟩
        simp [next, hopen, hrefusal, readAt, hremembered, lookUp, hbucket, Buffer.heldAt, taken]
      · cases found with
        | false =>
          refine ⟨h, hopen, rfl, ?_⟩
          simp [next, hopen, hrefusal, readAt, hremembered, lookUp, hbucket, Buffer.heldAt, taken,
            Outcome.raise]
        | true =>
          obtain ⟨hf', hlt⟩ := hasked.found rfl
          obtain ⟨p, a, hp, -, hitem, hgot⟩ := hsound'.exists_shown hf' hlt
          refine ⟨{ h with position := h.position + 1, cached := some p.bucket }, hopen, rfl, ?_⟩
          have hp' := hlayout ▸ hp
          simp [next, hopen, hrefusal, readAt, hremembered, lookUp, hbucket, Buffer.heldAt, taken,
            hp, hp', hitem, hgot, present]

end Head
end Replay
