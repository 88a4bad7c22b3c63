import Replay.Proofs.Buffer.Answers
import Replay.Proofs.Buffer.Status

/-!
What `has_next` promises. Over any tap the buckets hold the items given to the buffer. After `has_next`
has answered true the item is there, and asking first changes nothing about the `next` that follows.
-/
namespace Replay

variable {α σ τ : Type} {tap : Tap α σ}

theorem Failure.error_ne_missing (f : Failure) (position : Nat) : f.error ≠ .missingItem position := by
  cases f with
  | sizeExceeded limit => nofun
  | growthDisabled capacity => nofun

namespace Buffer

variable {b b' : Buffer α} {got : List α} {s s' : σ} {offset : Nat} {r : Outcome StreamError Bool}

/-- The buckets hold the items pulled, or did until the buffer was closed. -/
def Consistent (b : Buffer α) : Prop := ∃ b₀ got, Sound b₀ got ∧ (b = b₀ ∨ b = b₀.close)

theorem Sound.consistent (h : b.Sound got) : b.Consistent := ⟨b, got, h, .inl rfl⟩

theorem Consistent.exists_sound (h : b.Consistent) (hopen : b.closed = false) : ∃ got, b.Sound got := by
  obtain ⟨b₀, got, hsound, rfl | rfl⟩ := h
  · exact ⟨got, hsound⟩
  · cases hopen

theorem Consistent.close (h : b.Consistent) (hopen : b.closed = false) : b.close.Consistent := by
  obtain ⟨got, hsound⟩ := h.exists_sound hopen
  exact ⟨b, got, hsound, .inr rfl⟩

theorem refusal_ne_missing (position : Nat) : b.refusal ≠ some (.missingItem position) := by
  unfold refusal
  split
  · rename_i f _
    exact fun h => f.error_ne_missing position (Option.some.inj h)
  · split
    · nofun
    · nofun

theorem failure_of_refusal (h : b.refusal = none) : b.failure = none := by
  unfold refusal at h
  split at h
  · cases h
  · assumption

theorem closed_of_refusal (h : b.refusal = none) : b.closed = false := by
  rw [refusal_eq_none_iff] at h
  exact (Bool.or_eq_false_iff.mp h).1

theorem refusal_of_live (hf : b.failure = none) (hopen : b.closed = false) : b.refusal = none := by
  simp [refusal, hf, hopen]

structure FillSpec (b : Buffer α) (n : Nat) (r : Outcome StreamError Bool) (b' : Buffer α) : Prop where
  sound : ∃ got, b'.Sound got
  full : r = .ok true → b'.failure = none ∧ b'.consumed = b.consumed + n
  ended : r = .ok false →
    b'.failure = none ∧ b'.exhausted ∧ 0 < n ∧ b'.consumed < b.consumed + n
  whole : ∀ position, r ≠ .raise (.missingItem position)

theorem FillSpec.of_stop {n : Nat} {stop : Stop StreamError} (h : b'.Sound got)
    (hwhole : ∀ position, stop ≠ .error (.missingItem position)) : b.FillSpec n (.error stop) b' := by
  refine ⟨⟨got, h⟩, ?_, ?_, ?_⟩
  · rintro ⟨⟩
  · rintro ⟨⟩
  · rintro position ⟨⟩
    exact hwhole position rfl

theorem Sound.fill (h : b.Sound got) (hf : b.failure = none) (tap : Tap α σ) (n : Nat) (s : σ) :
    b.FillSpec n (b.fill tap n s).1 (b.fill tap n s).2.1 := by
  induction n generalizing b got s with
  | zero => exact ⟨⟨got, h⟩, fun _ => ⟨hf, rfl⟩, by rintro ⟨⟩, by rintro _ ⟨⟩⟩
  | succ n ih =>
    unfold Buffer.fill
    split
    · rename_i hexhausted
      exact ⟨⟨got, h⟩, by rintro ⟨⟩, fun _ => ⟨hf, hexhausted, by omega, by simp⟩, by rintro _ ⟨⟩⟩
    · rcases tap.pull s with ⟨o, s₁⟩
      cases o with
      | item a =>
        obtain ⟨he, -, -, hsound⟩ := h.append hf a
        dsimp only
        rw [append_eq]
        rcases ha : b.append .record a [] with ⟨e, b₁, es⟩
        rw [ha] at he hsound
        dsimp only at he hsound ⊢
        cases hf₁ : b₁.failure with
        | none =>
          obtain rfl : e = none := by rw [he, hf₁]; rfl
          have hlength := hsound.length_eq hf₁
          rw [List.length_append, List.length_singleton, h.length_eq hf] at hlength
          have hrest := ih hsound hf₁ (tap.noteAll es s₁)
          dsimp only
          refine ⟨hrest.sound, fun hr => ?_, fun hr => ?_, hrest.whole⟩
          · obtain ⟨hf', hcount⟩ := hrest.full hr
            exact ⟨hf', by omega⟩
          · obtain ⟨hf', hexhausted, -, hcount⟩ := hrest.ended hr
            exact ⟨hf', hexhausted, by omega, by omega⟩
        | some f =>
          obtain rfl : e = some f.error := by rw [he, hf₁]; rfl
          exact .of_stop hsound fun position he => f.error_ne_missing position (Stop.error.inj he)
      | finished =>
        have hsound := (h.absorb hf .finished).2.2
        exact ⟨⟨_, hsound⟩, by rintro ⟨⟩, fun _ => ⟨hf, rfl, by omega, by simp⟩, by rintro _ ⟨⟩⟩
      | failed e => exact .of_stop h (by rintro _ ⟨⟩)
      | panicked p => exact .of_stop h (by rintro _ ⟨⟩)

structure AnswerSpec (offset : Nat) (r : Outcome StreamError Bool) (b' : Buffer α) : Prop where
  consistent : b'.Consistent
  found : r = .ok true → b'.refusal = none ∧ offset < b'.consumed
  ended : r = .ok false → b'.refusal = none ∧ b'.exhausted ∧ b'.consumed ≤ offset
  whole : ∀ position, r ≠ .raise (.missingItem position)

theorem Consistent.hasNext (h : b.Consistent) (tap : Tap α σ) (offset : Nat) (s : σ) :
    AnswerSpec offset (b.hasNext tap offset s).1 (b.hasNext tap offset s).2.1 := by
  cases hrefusal : b.refusal with
  | some e =>
    rw [hasNext_of_refusal hrefusal]
    refine ⟨h, nofun, nofun, fun position => ?_⟩
    rintro ⟨⟩
    exact refusal_ne_missing position hrefusal
  | none =>
    obtain ⟨got, hsound⟩ := h.exists_sound (closed_of_refusal hrefusal)
    have hfill := hsound.fill (failure_of_refusal hrefusal) tap (offset + 1 - b.consumed) s
    obtain ⟨got', hsound'⟩ := hfill.sound
    simp only [Buffer.hasNext, hrefusal]
    refine ⟨hsound'.consistent, fun hr => ?_, fun hr => ?_, hfill.whole⟩
    · obtain ⟨hf, hcount⟩ := hfill.full hr
      exact ⟨refusal_of_live hf hsound'.opened, by omega⟩
    · obtain ⟨hf, hexhausted, hmore, hcount⟩ := hfill.ended hr
      exact ⟨refusal_of_live hf hsound'.opened, hexhausted, by omega⟩

theorem hasNext_of_lt (hopen : b.refusal = none) (hlt : offset < b.consumed) (s : σ) :
    b.hasNext tap offset s = (.ok true, b, s) := by
  simp only [hasNext, hopen, Nat.sub_eq_zero_of_le (Nat.succ_le_of_lt hlt), fill]

theorem hasNext_of_exhausted (hopen : b.refusal = none) (hexhausted : b.exhausted)
    (hle : b.consumed ≤ offset) (s : σ) : b.hasNext tap offset s = (.ok false, b, s) := by
  obtain ⟨n, hn⟩ : ∃ n, offset + 1 - b.consumed = n + 1 := ⟨offset - b.consumed, by omega⟩
  simp only [hasNext, hopen, hn, fill, hexhausted, if_true]

/-- A repeated `has_next` gives the same answer and pulls nothing. -/
theorem AnswerSpec.again {found : Bool} (h : AnswerSpec offset (.ok found) b')
    (tap : Tap α σ) (s : σ) :
    b'.hasNext tap offset s = (.ok found, b', s) := by
  cases found with
  | true =>
    obtain ⟨hopen, hlt⟩ := h.found rfl
    exact hasNext_of_lt hopen hlt s
  | false =>
    obtain ⟨hopen, hexhausted, hle⟩ := h.ended rfl
    exact hasNext_of_exhausted hopen hexhausted hle s

/-- The item of an offset, from the bucket that the layout names. -/
def at? (b : Buffer α) (offset : Nat) : Option α :=
  (b.layout.locate offset).bind fun p => b.item? p.bucket p

theorem Consistent.exists_at? (h : b.Consistent) (hopen : b.refusal = none) (hlt : offset < b.consumed) :
    ∃ p a, b.layout.locate offset = some p ∧ b.shown? p = some p.bucket ∧ b.at? offset = some a := by
  obtain ⟨got, hsound⟩ := h.exists_sound (closed_of_refusal hopen)
  obtain ⟨p, a, hp, hshown, hitem, -⟩ := hsound.exists_shown (failure_of_refusal hopen) hlt
  exact ⟨p, a, hp, hshown, by rw [at?, hp, Option.bind_some, hitem]⟩

theorem Consistent.bucketFor_eq (h : b.Consistent) (hhas : b.hasNext tap offset s = (r, b', s')) :
    b.bucketFor tap offset s = (heldAt b'.layout offset r, b', s') := by
  have hanswered := h.hasNext tap offset s
  rw [hhas] at hanswered
  unfold bucketFor
  rw [hhas]
  rcases r with stop | _ | _
  · rfl
  · rfl
  · obtain ⟨hopen, hlt⟩ := hanswered.found rfl
    obtain ⟨p, a, hp, hshown, -⟩ := hanswered.consistent.exists_at? hopen hlt
    simp [hp, hshown, heldAt]

theorem AnswerSpec.heldAt_ne_missing (h : AnswerSpec offset r b') (position : Nat) :
    heldAt b'.layout offset r ≠ .raise (.missingItem position) := by
  have hwhole := h.whole position
  rcases r with stop | _ | _
  · rintro ⟨⟩
    exact hwhole rfl
  · nofun
  · nofun

end Buffer

namespace Head

variable {tap' : Tap α τ} {b b' : Buffer α} {s s' : σ} {r : Outcome StreamError Bool}

def brings (h : Head) (b : Buffer α) : Outcome StreamError Bool → Outcome StreamError α × Head
  | .ok true => (h.present (b.at? h.position),
      { h with position := h.position + 1, cached := (b.layout.locate h.position).map (·.bucket) })
  | .ok false => (.raise (.endOfData h.position), h)
  | .error stop => (.error stop, h)

theorem remembered_eq_at? (hb : b.Consistent) (hopen : b.refusal = none) {h : Head} {item : Option α}
    (hr : h.remembered b = some item) : h.position < b.consumed ∧ item = b.at? h.position ∧
      h.cached = (b.layout.locate h.position).map (·.bucket) := by
  obtain ⟨got, hsound⟩ := hb.exists_sound (Buffer.closed_of_refusal hopen)
  have hf := Buffer.failure_of_refusal hopen
  obtain ⟨hlt, -, -⟩ := remembered_eq hsound hf hr
  simp only [remembered, Option.bind_eq_bind, Option.bind_eq_some_iff] at hr
  obtain ⟨held, hheld, p, hp, k, hk, hr⟩ := hr
  split at hr
  · rename_i hcontains
    cases hr
    have hown := (hsound.holds_all hf).held_eq hk hcontains
    subst hown
    exact ⟨hlt, by rw [Buffer.at?, hp, Option.bind_some, Buffer.item?, hk, Option.bind_some],
      by rw [hheld, hp, Option.map_some]⟩
  · cases hr

/-- `next` is determined by `has_next`, whatever bucket the head remembers. -/
theorem next_eq (hb : b.Consistent) {h : Head} (hopen : h.closed = false)
    (hhas : b.hasNext tap h.position s = (r, b', s')) :
    h.next tap b s = ((h.brings b' r).1, (h.brings b' r).2, b', s') := by
  cases hrefusal : b.refusal with
  | some e =>
    rw [Buffer.hasNext_of_refusal hrefusal] at hhas
    cases hhas
    exact next_of_refusal hopen hrefusal s
  | none =>
    cases hremembered : h.remembered b with
    | some item =>
      obtain ⟨hlt, hitem, hcached⟩ := remembered_eq_at? hb hrefusal hremembered
      obtain ⟨p, a, -, -, ha⟩ := hb.exists_at? hrefusal hlt
      rw [Buffer.hasNext_of_lt hrefusal hlt] at hhas
      cases hhas
      simp [next, hopen, hrefusal, readAt, hremembered, brings, hitem, ha, present, ← hcached]
    | none =>
      have hanswered := hb.hasNext tap h.position s
      rw [hhas] at hanswered
      have hbucket := hb.bucketFor_eq hhas
      rcases r with stop | _ | _
      · simp [next, hopen, hrefusal, readAt, hremembered, lookUp, hbucket, Buffer.heldAt, brings]
      · simp [next, hopen, hrefusal, readAt, hremembered, lookUp, hbucket, Buffer.heldAt, brings,
          Outcome.raise]
      · obtain ⟨hopen', hlt⟩ := hanswered.found rfl
        obtain ⟨p, a, hp, -, ha⟩ := hanswered.consistent.exists_at? hopen' hlt
        have hitem := ha
        rw [Buffer.at?, hp, Option.bind_some] at hitem
        simp [next, hopen, hrefusal, readAt, hremembered, lookUp, hbucket, Buffer.heldAt, brings, hp,
          hitem, ha, present]

theorem brings_ne_missing {h : Head} (hanswered : Buffer.AnswerSpec h.position r b) (position : Nat) :
    (h.brings b r).1 ≠ .raise (.missingItem position) := by
  have hwhole := hanswered.whole position
  rcases r with stop | _ | _
  · rintro ⟨⟩
    exact hwhole rfl
  · rintro ⟨⟩
  · obtain ⟨hopen, hlt⟩ := hanswered.found rfl
    obtain ⟨p, a, -, -, ha⟩ := hanswered.consistent.exists_at? hopen hlt
    rw [brings, ha, present]
    rintro ⟨⟩

theorem hasNext_eq {h : Head} (hopen : h.closed = false) :
    h.hasNext tap b s = b.hasNext tap h.position s := by
  rw [hasNext, hopen]
  rfl

end Head
end Replay
