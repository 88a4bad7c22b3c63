import Replay.Head
import Replay.Proofs.Buffer.Pulling

/-!
Reading over a tap that plays given outcomes. Only `has_next` pulls. `bucket_for` and `next` make the
same pulls and differ only in what they return.
-/
namespace Replay

variable {α σ : Type}

/-- The tap brings `outcomes` in order. `At s count es` says that in state `s` the first `count` have
been brought and `es` has been logged. -/
structure Tap.Plays (tap : Tap α σ) (outcomes : Nat → Pull α)
    (At : σ → Nat → List Event → Prop) : Prop where
  pull : ∀ {s count es}, At s count es →
    (tap.pull s).1 = outcomes count ∧ At (tap.pull s).2 (count + 1) es
  note : ∀ {s count es} e, At s count es → At (tap.note e s) count (es ++ [e])

variable {tap : Tap α σ} {outcomes : Nat → Pull α} {At : σ → Nat → List Event → Prop}

theorem Tap.Plays.noteAll (hp : tap.Plays outcomes At) {s : σ} {count : Nat} {es : List Event}
    (fs : List Event) (h : At s count es) : At (tap.noteAll fs s) count (es ++ fs) := by
  induction fs generalizing s es with
  | nil => simpa using h
  | cons e fs ih => simpa [Tap.noteAll] using ih (hp.note e h)

/-- The result with which a pull ends `fill_to`, if it does. `e` is the error of storing its item. -/
def Pull.ending : Pull α → (e : Option StreamError) → Option (Outcome StreamError Bool)
  | .item _, none => none
  | .item _, some e => some (.raise e)
  | .finished, _ => some (.ok false)
  | .failed e, _ => some (.raise (.source e))
  | .panicked p, _ => some (.panic p)

theorem Pull.item_of_ending_eq_none {p : Pull α} {e : Option StreamError} (h : p.ending e = none) :
    (∃ a, p = .item a) ∧ e = none := by
  cases p with
  | item a =>
    cases e with
    | none => exact ⟨⟨a, rfl⟩, rfl⟩
    | some e => cases h
  | finished => cases h
  | failed e => cases h
  | panicked p => cases h

namespace Buffer

/-- The events logged by the first `count` pulls. -/
def events (b : Buffer α) (outcomes : Nat → Pull α) : (count : Nat) → List Event
  | 0 => []
  | count + 1 => b.events outcomes count ++ ((b.after outcomes count).absorb (outcomes count)).2.2

theorem fill_succ (hp : tap.Plays outcomes At) {b b' : Buffer α} {s : σ} {count : Nat}
    {es fs : List Event} {e : Option StreamError} (h : At s count es)
    (hexhausted : b.exhausted = false) (hb : b.absorb (outcomes count) = (e, b', fs)) (n : Nat) :
    ∃ s', At s' (count + 1) (es ++ fs) ∧
      b.fill tap (n + 1) s =
        match (outcomes count).ending e with
        | none => b'.fill tap n s'
        | some r => (r, b', s') := by
  obtain ⟨hpull, hat⟩ := hp.pull h
  rw [← hpull] at hb ⊢
  rw [fill, hexhausted]
  rcases hs : tap.pull s with ⟨o, s₁⟩
  rw [hs] at hb hat
  dsimp only at hb hat
  refine ⟨tap.noteAll fs s₁, hp.noteAll _ hat, ?_⟩
  cases o with
  | item a =>
    rw [absorb] at hb
    simp only [Bool.false_eq_true, if_false, append_eq tap b a s₁, hb]
    cases e <;> rfl
  | finished =>
    cases hb
    rfl
  | failed c =>
    cases hb
    rfl
  | panicked p =>
    cases hb
    rfl

/-- How a fill for `n` more items ended after `more` pulls. -/
structure Filled (start : Buffer α) (outcomes : Nat → Pull α) (count n more : Nat)
    (r : Outcome StreamError Bool) : Prop where
  count_le : count ≤ more
  le_add : more ≤ count + n
  pulls : start.Pulls outcomes more
  full : r = .ok true → (start.after outcomes more).failure = none ∧
    (start.after outcomes more).consumed = (start.after outcomes count).consumed + n
  ended : r = .ok false → (start.after outcomes more).failure = none ∧
    (start.after outcomes more).exhausted ∧ 0 < n ∧
    (start.after outcomes more).consumed < (start.after outcomes count).consumed + n
  erred : ∀ e, r = .raise e →
    (∃ f, (start.after outcomes more).failure = some f ∧ e = f.error) ∨
      (start.after outcomes more).Live ∧ count < more ∧
        ∃ c, outcomes (more - 1) = .failed c ∧ e = .source c
  panicked : ∀ p, r = .panic p →
    (start.after outcomes more).Live ∧ count < more ∧ outcomes (more - 1) = .panicked p

variable {start : Buffer α} {count n : Nat}

theorem Filled.idle (hpulls : start.Pulls outcomes count)
    (hf : (start.after outcomes count).failure = none)
    (h : n = 0 ∨ (start.after outcomes count).exhausted) :
    start.Filled outcomes count n count (.ok (n == 0)) where
  count_le := le_rfl
  le_add := Nat.le_add_right _ _
  pulls := hpulls
  full := by
    intro hr
    have hn : n = 0 := by simpa using hr
    exact ⟨hf, by omega⟩
  ended := by
    intro hr
    have hn : n ≠ 0 := by simpa using hr
    exact ⟨hf, h.resolve_left hn, by omega, by omega⟩
  erred := nofun
  panicked := nofun

theorem after_succ_of_item? {b : Buffer α} (h : (outcomes count).item? = none) :
    (b.after outcomes (count + 1)).failure = (b.after outcomes count).failure ∧
      (b.after outcomes (count + 1)).consumed = (b.after outcomes count).consumed := by
  rw [after]
  cases ho : outcomes count with
  | item a => simp [ho, Pull.item?] at h
  | finished => exact ⟨rfl, rfl⟩
  | failed e => exact ⟨rfl, rfl⟩
  | panicked p => exact ⟨rfl, rfl⟩

theorem Filled.of_ending (hpulls : start.Pulls outcomes (count + 1)) {r : Outcome StreamError Bool}
    (h : (outcomes count).ending ((start.after outcomes (count + 1)).failure.map Failure.error) =
      some r) :
    start.Filled outcomes count (n + 1) (count + 1) r := by
  have hlive := hpulls count (Nat.lt_succ_self _)
  cases ho : outcomes count with
  | item a =>
    rw [ho] at h
    cases hf : (start.after outcomes (count + 1)).failure with
    | none =>
      rw [hf] at h
      cases h
    | some f =>
      rw [hf] at h
      cases h
      refine ⟨by omega, by omega, hpulls, nofun, nofun, fun e hr => ?_, nofun⟩
      cases hr
      exact .inl ⟨f, hf, rfl⟩
  | finished =>
    have hitem : (outcomes count).item? = none := by
      rw [ho]
      rfl
    obtain ⟨hf, hcount⟩ := after_succ_of_item? (b := start) hitem
    have hend : (start.after outcomes (count + 1)).exhausted := by
      rw [after, ho]
      rfl
    rw [ho] at h
    cases h
    exact ⟨by omega, by omega, hpulls, nofun, fun _ => ⟨hf.trans hlive.1, hend, by omega, by omega⟩,
      nofun, nofun⟩
  | failed c =>
    have hsame : start.after outcomes (count + 1) = start.after outcomes count := by
      rw [after, ho]
      rfl
    rw [ho] at h
    cases h
    refine ⟨by omega, by omega, hpulls, nofun, nofun, fun e hr => ?_, nofun⟩
    cases hr
    exact .inr ⟨hsame ▸ hlive, by omega, c, ho, rfl⟩
  | panicked p =>
    have hsame : start.after outcomes (count + 1) = start.after outcomes count := by
      rw [after, ho]
      rfl
    rw [ho] at h
    cases h
    refine ⟨by omega, by omega, hpulls, nofun, nofun, nofun, fun q hr => ?_⟩
    cases hr
    exact ⟨hsame ▸ hlive, by omega, ho⟩

theorem Sound.consumed_succ (h : (start.after outcomes count).Sound (delivered outcomes count))
    (h' : (start.after outcomes (count + 1)).Sound (delivered outcomes (count + 1)))
    (hf : (start.after outcomes count).failure = none)
    (hend : (outcomes count).ending ((start.after outcomes (count + 1)).failure.map Failure.error) =
      none) :
    (start.after outcomes (count + 1)).failure = none ∧
      (start.after outcomes (count + 1)).consumed = (start.after outcomes count).consumed + 1 := by
  obtain ⟨⟨a, ho⟩, hnone⟩ := Pull.item_of_ending_eq_none hend
  have hf' := Option.map_eq_none_iff.mp hnone
  have hlength := h.length_eq hf
  have hlength' := h'.length_eq hf'
  rw [delivered_succ, ho, List.length_append] at hlength'
  refine ⟨hf', ?_⟩
  simp only [Pull.item?, Option.toList_some, List.length_singleton] at hlength'
  omega

theorem Filled.succ {more : Nat} {r : Outcome StreamError Bool}
    (h : start.Filled outcomes (count + 1) n more r)
    (hcount : (start.after outcomes (count + 1)).consumed =
      (start.after outcomes count).consumed + 1) :
    start.Filled outcomes count (n + 1) more r := by
  have hn : (start.after outcomes (count + 1)).consumed + n =
    (start.after outcomes count).consumed + (n + 1) := by omega
  have hle := h.count_le
  have hadd := h.le_add
  refine ⟨by omega, by omega, h.pulls, hn ▸ h.full, ?_, ?_, ?_⟩
  · intro hr
    obtain ⟨hf, hexhausted, hn', hlt⟩ := h.ended hr
    exact ⟨hf, hexhausted, by omega, by omega⟩
  · intro e hr
    rcases h.erred e hr with hfailed | ⟨hlive, hlt, hc⟩
    · exact .inl hfailed
    · exact .inr ⟨hlive, by omega, hc⟩
  · intro p hr
    obtain ⟨hlive, hlt, hpanic⟩ := h.panicked p hr
    exact ⟨hlive, by omega, hpanic⟩

/-- `fill_to` pulls until it has its items, the source ends, or an error stops it. -/
theorem fill_after (hp : tap.Plays outcomes At) (h : start.Sound []) (n : Nat) {count : Nat} {s : σ}
    (hpulls : start.Pulls outcomes count) (hf : (start.after outcomes count).failure = none)
    (hat : At s count (start.events outcomes count)) :
    ∃ more s' r, (start.after outcomes count).fill tap n s = (r, start.after outcomes more, s') ∧
      At s' more (start.events outcomes more) ∧ start.Filled outcomes count n more r := by
  induction n generalizing count s with
  | zero => exact ⟨count, s, .ok true, rfl, hat, .idle hpulls hf (.inl rfl)⟩
  | succ n ih =>
    cases hexhausted : (start.after outcomes count).exhausted with
    | true =>
      refine ⟨count, s, .ok false, ?_, hat, .idle hpulls hf (.inr hexhausted)⟩
      simp [fill, hexhausted]
    | false =>
      have hpulls' : start.Pulls outcomes (count + 1) := by
        intro earlier he
        rcases Nat.lt_succ_iff_lt_or_eq.mp he with hlt | rfl
        · exact hpulls earlier hlt
        · exact ⟨hf, hexhausted⟩
      obtain ⟨-, hsound⟩ := sound_after h hpulls
      obtain ⟨-, hsound'⟩ := sound_after h hpulls'
      have habsorb : (start.after outcomes count).absorb (outcomes count) =
          ((start.after outcomes (count + 1)).failure.map Failure.error,
            start.after outcomes (count + 1),
            ((start.after outcomes count).absorb (outcomes count)).2.2) :=
        Prod.ext (hsound.absorb hf (outcomes count)).1 rfl
      obtain ⟨s', hat', hfill⟩ := fill_succ hp hat hexhausted habsorb n
      rw [hfill]
      cases hend : (outcomes count).ending
          ((start.after outcomes (count + 1)).failure.map Failure.error) with
      | none =>
        obtain ⟨hf', hcount⟩ := hsound.consumed_succ hsound' hf hend
        obtain ⟨more, s'', r, hmore, hat'', hfilled⟩ := ih hpulls' hf' hat'
        exact ⟨more, s'', r, hmore, hat'', hfilled.succ hcount⟩
      | some r => exact ⟨count + 1, s', r, rfl, hat', .of_ending hpulls' hend⟩

end Buffer
end Replay
