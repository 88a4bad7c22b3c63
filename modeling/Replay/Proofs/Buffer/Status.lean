import Replay.Head

/-!
The closed flag and the ownership of a buffer do not change by reading, and an open buffer never answers
with `buffer_closed`.
-/
namespace Replay

variable {α σ : Type}

theorem Outcome.raise_inj {ε : Type} {e e' : ε} :
    (raise e : Outcome ε α) = raise e' ↔ e = e' := by
  simp [raise]

theorem Failure.error_ne_closed (f : Failure) : f.error ≠ .bufferClosed := by
  cases f with
  | sizeExceeded limit => nofun
  | growthDisabled capacity => nofun

namespace Buffer

variable {t : Tap α σ} {b : Buffer α} {s : σ}

def status (b : Buffer α) : Bool × Ownership := (b.closed, b.ownership)

theorem status_ofConfig {config : Config} {hint : Option Nat} (h : ofConfig config hint = .ok b) :
    b.status = (false, config.ownership) := by
  rw [ofConfig] at h
  cases hc : config.validate with
  | error e => simp [hc, Except.map] at h
  | ok =>
    rw [hc] at h
    cases h
    rfl

theorem status_fail (f : Failure) : (b.fail f).2.status = b.status := by
  unfold fail
  split
  · rfl
  · rfl

theorem status_makeRoom : (b.makeRoom t s).2.1.status = b.status := by
  unfold makeRoom extend
  split
  · rfl
  · split
    · exact status_fail _
    · rfl

theorem status_keep (a : α) : (b.keep t a s).2.1.status = b.status := by
  unfold keep
  split
  · dsimp only
    split
    · split
      · exact status_fail _
      · rfl
    · rfl
  · rfl

theorem status_append (a : α) : (b.append t a s).2.1.status = b.status := by
  have hroom := status_makeRoom (t := t) (b := b) (s := s)
  unfold append
  rcases hr : b.makeRoom t s with ⟨_ | e, b', s'⟩
  · rw [hr] at hroom
    exact (status_keep a).trans hroom
  · rw [hr] at hroom
    exact hroom

theorem status_fill (n : Nat) : (b.fill t n s).2.1.status = b.status := by
  induction n generalizing b s with
  | zero => rfl
  | succ n ih =>
    unfold fill
    split
    · rfl
    · rcases t.pull s with ⟨o, s'⟩
      cases o with
      | item a =>
        have happend := status_append (t := t) (b := b) (s := s') a
        dsimp only
        rcases ha : b.append t a s' with ⟨_ | e, b', s''⟩
        · rw [ha] at happend
          exact ih.trans happend
        · rw [ha] at happend
          exact happend
      | _ => rfl

theorem status_hasNext (offset : Nat) : (b.hasNext t offset s).2.1.status = b.status := by
  unfold hasNext
  split
  · rfl
  · exact status_fill _

theorem status_bucketFor (offset : Nat) : (b.bucketFor t offset s).2.1.status = b.status := by
  have hnext := status_hasNext (t := t) (b := b) (s := s) offset
  unfold bucketFor
  rcases hr : b.hasNext t offset s with ⟨_ | _ | _, b', s'⟩
  · rw [hr] at hnext
    exact hnext
  · rw [hr] at hnext
    exact hnext
  · rw [hr] at hnext
    dsimp only
    split
    · exact (status_fail _).trans hnext
    · split
      · exact hnext
      · exact hnext

theorem refusal_ne_closed (hopen : b.closed = false) : b.refusal ≠ some .bufferClosed := by
  unfold refusal
  rw [hopen]
  split
  · rename_i f _
    exact fun h => f.error_ne_closed (Option.some.inj h)
  · nofun

theorem fail_ne_closed (f : Failure) : (b.fail f).1 ≠ .bufferClosed := by
  unfold fail
  split
  · rename_i first _
    exact first.error_ne_closed
  · exact f.error_ne_closed

theorem makeRoom_ne_closed : (b.makeRoom t s).1 ≠ some .bufferClosed := by
  unfold makeRoom extend
  split
  · nofun
  · split
    · exact fun h => fail_ne_closed _ (Option.some.inj h)
    · nofun

theorem keep_ne_closed (a : α) : (b.keep t a s).1 ≠ some .bufferClosed := by
  unfold keep
  split
  · dsimp only
    split
    · split
      · exact fun h => fail_ne_closed _ (Option.some.inj h)
      · nofun
    · nofun
  · nofun

theorem append_ne_closed (a : α) : (b.append t a s).1 ≠ some .bufferClosed := by
  have hroom := makeRoom_ne_closed (t := t) (b := b) (s := s)
  unfold append
  rcases hr : b.makeRoom t s with ⟨_ | e, b', s'⟩
  · exact keep_ne_closed a
  · rw [hr] at hroom
    exact hroom

theorem fill_ne_closed (n : Nat) : (b.fill t n s).1 ≠ .raise .bufferClosed := by
  induction n generalizing b s with
  | zero => nofun
  | succ n ih =>
    unfold fill
    split
    · nofun
    · rcases t.pull s with ⟨o, s'⟩
      cases o with
      | item a =>
        have happend := append_ne_closed (t := t) (b := b) (s := s') a
        dsimp only
        rcases ha : b.append t a s' with ⟨_ | e, b', s''⟩
        · exact ih
        · rw [ha] at happend
          rintro ⟨⟩
          exact happend rfl
      | finished => nofun
      | failed e => nofun
      | panicked p => nofun

theorem hasNext_ne_closed (hopen : b.closed = false) (offset : Nat) :
    (b.hasNext t offset s).1 ≠ .raise .bufferClosed := by
  unfold hasNext
  split
  · rename_i e he
    rintro ⟨⟩
    exact refusal_ne_closed hopen he
  · exact fill_ne_closed _

theorem bucketFor_ne_closed (hopen : b.closed = false) (offset : Nat) :
    (b.bucketFor t offset s).1 ≠ .raise .bufferClosed := by
  have hnext := hasNext_ne_closed (t := t) (s := s) hopen offset
  have hstatus := status_hasNext (t := t) (b := b) (s := s) offset
  unfold bucketFor
  rcases hr : b.hasNext t offset s with ⟨stop | _ | _, b', s'⟩
  · rw [hr] at hnext
    rintro ⟨⟩
    exact hnext rfl
  · nofun
  · rw [hr] at hstatus
    have hopen' : b'.closed = false := (congrArg Prod.fst hstatus).trans hopen
    dsimp only
    split
    · exact fun h => fail_ne_closed _ (Outcome.raise_inj.mp h)
    · split
      · nofun
      · intro h
        replace h := Outcome.raise_inj.mp h
        cases hrefusal : b'.refusal with
        | none => simp [hrefusal] at h
        | some e =>
          rw [hrefusal, Option.getD_some] at h
          exact refusal_ne_closed hopen' (hrefusal.trans (congrArg some h))

end Buffer

namespace Head

variable {t : Tap α σ} {b : Buffer α} {s : σ}

theorem status_hasNext (h : Head) : (h.hasNext t b s).2.1.status = b.status := by
  unfold hasNext
  split
  · rfl
  · exact Buffer.status_hasNext _

theorem status_next (h : Head) : (h.next t b s).2.2.1.status = b.status := by
  have hbucket := Buffer.status_bucketFor (t := t) (b := b) (s := s) h.position
  have hread : (h.readAt t b s).2.2.1.status = b.status := by
    unfold readAt lookUp
    split
    · rfl
    · rcases hr : b.bucketFor t h.position s with ⟨_ | _ | _, b', s'⟩
      all_goals
        rw [hr] at hbucket
        exact hbucket
  unfold next
  split
  · rfl
  · split
    · rfl
    · rcases hr : h.readAt t b s with ⟨_ | _, h', b', s'⟩
      all_goals
        rw [hr] at hread
        exact hread

theorem hasNext_ne_closed (hopen : b.closed = false) (h : Head) :
    (h.hasNext t b s).1 ≠ .raise .bufferClosed := by
  unfold hasNext
  split
  · nofun
  · exact Buffer.hasNext_ne_closed hopen _

theorem next_ne_closed (hopen : b.closed = false) (h : Head) :
    (h.next t b s).1 ≠ .raise .bufferClosed := by
  have hpresent : ∀ item, (h.present item : Outcome StreamError α) ≠ .raise .bufferClosed := by
    rintro (_ | _)
    · nofun
    · nofun
  have hread : (h.readAt t b s).1 ≠ .raise .bufferClosed := by
    have hbucket := Buffer.bucketFor_ne_closed (t := t) (s := s) hopen h.position
    unfold readAt lookUp
    split
    · exact hpresent _
    · rcases hr : b.bucketFor t h.position s with ⟨_ | _ | _, b', s'⟩
      · rw [hr] at hbucket
        rintro ⟨⟩
        exact hbucket rfl
      · nofun
      · exact hpresent _
  unfold next
  split
  · nofun
  · split
    · rename_i e he
      exact fun h => Buffer.refusal_ne_closed hopen (he.trans (congrArg some (Outcome.raise_inj.mp h)))
    · rcases hr : h.readAt t b s with ⟨_ | _, h', b', s'⟩
      · rw [hr] at hread
        rintro ⟨⟩
        exact hread rfl
      · nofun

end Head

end Replay
