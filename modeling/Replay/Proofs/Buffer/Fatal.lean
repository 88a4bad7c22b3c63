import Replay.Proofs.Buffer.Answers
import Replay.Proofs.Feeds
import Replay.Proofs.Shared.SharedOps

/-!
`is_fatal` against the state of the buffer. Every fatal error of the buffer itself leaves it closed. A
source error is classed as fatal too, but leaves the buffer open.
-/
namespace Replay

variable {α σ : Type}

def StreamError.isHandedOn : StreamError → Bool
  | .source _ => true
  | _ => false

theorem StreamError.isFatal_of_isHandedOn (e : StreamError) (h : e.isHandedOn) : e.isFatal := by
  cases e with
  | source cause => rfl
  | _ => cases h

theorem Failure.isFatal_error (f : Failure) : f.error.isFatal ∧ f.error.isHandedOn = false := by
  cases f with
  | sizeExceeded limit => exact ⟨rfl, rfl⟩
  | growthDisabled capacity => exact ⟨rfl, rfl⟩

namespace Buffer

variable {t : Tap α σ} {b : Buffer α} {e : StreamError} {s : σ}

/-- Every call fails with a fixed error, whatever the source brings. -/
def Terminal (b : Buffer α) : Prop :=
  ∀ {σ : Type} (t : Tap α σ) (offset : Nat) (s : σ), ∃ e,
    (b.hasNext t offset s = (.raise e, b, s) ∧ b.bucketFor t offset s = (.raise e, b, s)) ∧
      b.close.hasNext t offset s = (.raise e, b.close, s) ∧
      b.close.bucketFor t offset s = (.raise e, b.close, s)

def silent : Tap α Unit := ⟨fun _ => (.finished, ()), fun _ _ => ()⟩

theorem fill_silent (n : Nat) (b : Buffer α) : ∃ found, (b.fill silent n ()).1 = .ok found := by
  cases n with
  | zero => exact ⟨true, rfl⟩
  | succ n =>
    unfold fill
    split
    · exact ⟨false, rfl⟩
    · exact ⟨false, rfl⟩

theorem terminal_iff : b.Terminal ↔ b.isClosed := by
  constructor
  · intro hterminal
    by_contra hopen
    have hrefusal : b.refusal = none := refusal_eq_none_iff.mpr (by simpa using hopen)
    obtain ⟨e, ⟨hnext, -⟩, -⟩ := hterminal silent 0 ()
    obtain ⟨found, hfill⟩ := fill_silent (0 + 1 - b.consumed) b
    simp only [hasNext, hrefusal] at hnext
    rw [hnext] at hfill
    cases hfill
  · intro hclosed σ t offset s
    cases hrefusal : b.refusal with
    | none =>
      rw [refusal_eq_none_iff.mp hrefusal] at hclosed
      cases hclosed
    | some e =>
      have hclose : b.close.refusal = some e := by
        rw [refusal_close, hrefusal]
        rfl
      exact ⟨e, ⟨hasNext_of_refusal hrefusal offset s, bucketFor_of_refusal hrefusal offset s⟩,
        hasNext_of_refusal hclose offset s, bucketFor_of_refusal hclose offset s⟩

/-- The buffer is closed exactly if the error is fatal and not a source error. -/
def FatalIffClosed (b : Buffer α) (e : StreamError) : Prop := b.isClosed = (e.isFatal && !e.isHandedOn)

theorem fatalIffClosed_of_failure {f : Failure} (h : b.failure = some f) : b.FatalIffClosed f.error := by
  obtain ⟨hfatal, hown⟩ := f.isFatal_error
  simp [FatalIffClosed, isClosed, h, hfatal, hown]

theorem fatalIffClosed_fail (f : Failure) : (b.fail f).2.FatalIffClosed (b.fail f).1 := by
  unfold fail
  cases hf : b.failure with
  | some first => exact fatalIffClosed_of_failure hf
  | none => exact fatalIffClosed_of_failure rfl

theorem fatalIffClosed_refusal (h : b.refusal = some e) : b.FatalIffClosed e := by
  unfold refusal at h
  cases hf : b.failure with
  | some f =>
    simp only [hf, Option.some.injEq] at h
    exact h ▸ fatalIffClosed_of_failure hf
  | none =>
    simp only [hf] at h
    split at h
    · rename_i hclosed
      cases h
      simp [FatalIffClosed, isClosed, hclosed, StreamError.isFatal, StreamError.isHandedOn]
    · cases h

theorem fatalIffClosed_missingItem (h : b.isClosed = false) (offset : Nat) :
    b.FatalIffClosed (.missingItem offset) := h

def StaysOpen (r : Option StreamError × Buffer α × σ) : Prop :=
  match r.1 with
  | none => r.2.1.isClosed = false
  | some e => r.2.1.FatalIffClosed e

theorem staysOpen_makeRoom (hopen : b.isClosed = false) : StaysOpen (b.makeRoom t s) := by
  unfold makeRoom extend
  split
  · exact hopen
  · split
    · exact fatalIffClosed_fail _
    · exact hopen

theorem staysOpen_keep (hopen : b.isClosed = false) (a : α) : StaysOpen (b.keep t a s) := by
  have hstored : (b.store a).isClosed = false := hopen
  unfold keep
  split
  · dsimp only
    split
    · split
      · exact fatalIffClosed_fail _
      · exact hstored
    · exact hstored
  · exact fatalIffClosed_missingItem hopen _

theorem staysOpen_append (hopen : b.isClosed = false) (a : α) : StaysOpen (b.append t a s) := by
  have hroom := staysOpen_makeRoom (t := t) (s := s) hopen
  unfold append
  rcases hr : b.makeRoom t s with ⟨_ | e, b', s'⟩
  · rw [hr] at hroom
    exact staysOpen_keep hroom a
  · rw [hr] at hroom
    exact hroom

theorem fatalIffClosed_fill {n : Nat} (hopen : b.isClosed = false) (h : (b.fill t n s).1 = .raise e) :
    (b.fill t n s).2.1.FatalIffClosed e := by
  induction n generalizing b s with
  | zero => cases h
  | succ n ih =>
    unfold fill at h ⊢
    split at h
    · cases h
    · rename_i hmore
      rw [if_neg hmore]
      rcases hp : t.pull s with ⟨o, s'⟩
      rw [hp] at h
      cases o with
      | item a =>
        have happend := staysOpen_append (t := t) (s := s') hopen a
        dsimp only at h ⊢
        rcases ha : b.append t a s' with ⟨_ | e', b', s''⟩
        · rw [ha] at h happend
          exact ih happend h
        · rw [ha] at h happend
          cases h
          exact happend
      | finished => cases h
      | failed c =>
        cases h
        simp [FatalIffClosed, hopen, StreamError.isHandedOn]
      | panicked p => cases h

theorem fatalIffClosed_hasNext {offset : Nat} (h : (b.hasNext t offset s).1 = .raise e) :
    (b.hasNext t offset s).2.1.FatalIffClosed e := by
  cases hrefusal : b.refusal with
  | some e' =>
    rw [hasNext_of_refusal hrefusal] at h ⊢
    cases h
    exact fatalIffClosed_refusal hrefusal
  | none =>
    simp only [hasNext, hrefusal] at h ⊢
    exact fatalIffClosed_fill (refusal_eq_none_iff.mp hrefusal) h

theorem fatalIffClosed_bucketFor {offset : Nat} (h : (b.bucketFor t offset s).1 = .raise e) :
    (b.bucketFor t offset s).2.1.FatalIffClosed e := by
  have hlogged : ∀ {e}, (b.hasNext t offset s).1 = .raise e → (b.hasNext t offset s).2.1.FatalIffClosed e :=
    fatalIffClosed_hasNext
  unfold bucketFor at h ⊢
  rcases hr : b.hasNext t offset s with ⟨_ | _ | _, b', s'⟩
  · rw [hr] at h hlogged
    cases h
    exact hlogged rfl
  · rw [hr] at h
    cases h
  · rw [hr] at h
    dsimp only at h ⊢
    cases hlocate : b'.layout.locate offset with
    | none =>
      simp only [hlocate] at h ⊢
      cases h
      exact fatalIffClosed_fail _
    | some p =>
      simp only [hlocate] at h ⊢
      cases hshown : b'.shown? p with
      | some held =>
        simp only [hshown] at h
        cases h
      | none =>
        simp only [hshown] at h ⊢
        cases h
        cases hrefusal : b'.refusal with
        | some e => exact fatalIffClosed_refusal hrefusal
        | none => exact fatalIffClosed_missingItem (refusal_eq_none_iff.mp hrefusal) offset

end Buffer

namespace Feeds

variable {β : Type} {s : Feeds α} {feed : Nat} {b : Buffer α} {e : StreamError}
  {f : Buffer α → Feeds α → Outcome StreamError β × Buffer α × Feeds α}

theorem fatalIffClosed_onBuffer (hb : s.buffer? feed = some b)
    (hsize : (f b (s.setBuffer feed none)).2.2.cells.size = s.cells.size)
    (hlogged : (f b (s.setBuffer feed none)).1 = .raise e →
    (f b (s.setBuffer feed none)).2.1.FatalIffClosed e)
    {s' : Feeds α} (h : s.onBuffer feed f = (.raise e, s')) :
    ∃ b', s'.buffer? feed = some b' ∧ b'.FatalIffClosed e := by
  have hlt : feed < s.cells.size := by
    obtain ⟨c, hc, -⟩ := Option.bind_eq_some_iff.mp hb
    exact (Array.getElem?_eq_some_iff.mp hc).1
  simp only [onBuffer, hb, Prod.mk.injEq] at h
  obtain ⟨hraise, rfl⟩ := h
  exact ⟨_, buffer?_setBuffer (hsize ▸ hlt) _, hlogged hraise⟩

/-- A read that ends in an error leaves the buffer closed exactly if the error is fatal, source errors
excepted; those are fatal and leave it open. Holds for every source and every earlier use of the buffer.
-/
theorem fatal_iff_closed (hb : s.buffer? feed = some b) (offset : Nat) {s' : Feeds α}
    (h : s.onBuffer feed (Buffer.hasNext (tap draw feed) offset) = (.raise e, s') ∨
      s.onBuffer feed (Buffer.bucketFor (tap draw feed) offset) = (.raise e, s')) :
    ∃ b', s'.buffer? feed = some b' ∧ (b'.Terminal ↔ b'.isClosed) ∧
      (e.isHandedOn = false → (e.isFatal ↔ b'.isClosed)) ∧
      (e.isHandedOn → e.isFatal ∧ b'.isClosed = false) := by
  have hpreserves := ((sizePreserving_draw (α := α)).preserves (k := s.cells.size) feed).agrees
  have hasked : ∃ b', s'.buffer? feed = some b' ∧ b'.FatalIffClosed e := by
    rcases h with h | h
    · exact fatalIffClosed_onBuffer hb (Buffer.hasNext_beside hpreserves offset ⟨rfl,
        size_setBuffer ..⟩).2.2.2
        Buffer.fatalIffClosed_hasNext h
    · exact fatalIffClosed_onBuffer hb (Buffer.bucketFor_beside hpreserves offset ⟨rfl,
        size_setBuffer ..⟩).2.2.2
        Buffer.fatalIffClosed_bucketFor h
  obtain ⟨b', hb', hlogged⟩ := hasked
  have hclosed : b'.isClosed = (e.isFatal && !e.isHandedOn) := hlogged
  refine ⟨b', hb', b'.terminal_iff, fun hown => ?_, fun hon => ⟨e.isFatal_of_isHandedOn hon, ?_⟩⟩
  · rw [hclosed, hown, Bool.not_false, Bool.and_true]
  · rw [hclosed, hon, Bool.not_true, Bool.and_false]

/-- The third of five items exceeds a layout of two slots. -/
theorem fatal_iff_closed_overflow :
    ∃ s, Shared.begin {} (.counting ⟨2, 0, .unbounded, .owned⟩ 5) = (.ok (), s) ∧
      ∃ b' : Buffer Nat, b'.Terminal ∧ (s.use (.hasNext 2)).2.buffer? = some b' := by
  have hb : (Shared.begin {} (.counting ⟨2, 0, .unbounded, .owned⟩ 5)).2.store.feeds.buffer? 0 =
      some (Supply.counting ⟨2, 0, .unbounded, .owned⟩ 5).start := rfl
  obtain ⟨b', hb', hterminal, hown, -⟩ := fatal_iff_closed hb 2 (.inl (Prod.ext rfl rfl))
  exact ⟨_, rfl, b', hterminal.mpr ((hown rfl).mp rfl), hb'⟩

/-- After an error of the source, which is fatal, the buffer is open and the retry succeeds. -/
theorem fatal_of_open :
    ∃ s : Shared Nat, Shared.begin {} { config := ⟨2, 1, .unbounded, .owned⟩, outcomes := fun
        | 0 => .failed (.failed "unreachable")
        | n + 1 => .item n } = (.ok (), s) ∧
      ∃ e b, (s.use (.hasNext 0)).1 = .flag 0 (.raise e) ∧ e.isFatal ∧
        (s.use (.hasNext 0)).2.buffer? = some b ∧ b.isClosed = false ∧
        ((s.use (.hasNext 0)).2.use (.hasNext 0)).1 = .flag 0 (.ok true) := by
  let e : StreamError := .source (.failed "unreachable")
  refine ⟨_, rfl, e, _, ?answer, ?fatal, rfl, ?opened, ?retry⟩
  case answer => rfl
  case fatal => exact StreamError.isFatal_of_isHandedOn e rfl
  case opened => rfl
  -- the second pull brings an item
  case retry => rfl

end Feeds
end Replay
