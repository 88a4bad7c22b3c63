import Replay.Head
import Replay.Proofs.Buffer.Pulling
import Replay.Proofs.Reading

/-!
Two runs of one buffer over two taps. If the taps bring the same from related states, both runs have the
same result and leave related states. What a read preserves is the case of one tap.
-/
namespace Replay

variable {α σ τ : Type}

structure Tap.Agrees (tap : Tap α σ) (tap' : Tap α τ) (R : σ → τ → Prop) : Prop where
  pull : ∀ {s s'}, R s s' → Beside R (tap.pull s) (tap'.pull s')
  note : ∀ {s s'} e, R s s' → R (tap.note e s) (tap'.note e s')

variable {tap : Tap α σ} {tap' : Tap α τ} {R : σ → τ → Prop} {b : Buffer α} {s : σ} {s' : τ}

theorem Tap.Agrees.noteAll (ht : tap.Agrees tap' R) (es : List Event) (h : R s s') :
    R (tap.noteAll es s) (tap'.noteAll es s') := by
  induction es generalizing s s' with
  | nil => exact h
  | cons e es ih => exact ih (ht.note e h)

namespace Buffer

theorem append_beside (ht : tap.Agrees tap' R) (a : α) (h : R s s') :
    Beside (Beside R) (b.append tap a s) (b.append tap' a s') := by
  rw [append_eq tap, append_eq tap']
  exact ⟨rfl, rfl, ht.noteAll _ h⟩

theorem fill_beside (ht : tap.Agrees tap' R) (n : Nat) (h : R s s') :
    Beside (Beside R) (b.fill tap n s) (b.fill tap' n s') := by
  induction n generalizing b s s' with
  | zero => exact ⟨rfl, rfl, h⟩
  | succ n ih =>
    unfold fill
    split
    · exact ⟨rfl, rfl, h⟩
    · obtain ⟨o, s₁, s₁', hs, hs', hstate⟩ := (ht.pull h).split
      rw [hs, hs']
      cases o with
      | item a =>
        obtain ⟨e, b₁, s₂, s₂', ha, ha', hstate⟩ := (append_beside (b := b) ht a hstate).split₂
        dsimp only
        rw [ha, ha']
        cases e with
        | none => exact ih hstate
        | some e => exact ⟨rfl, rfl, hstate⟩
      | finished => exact ⟨rfl, rfl, ht.note _ hstate⟩
      | failed e => exact ⟨rfl, rfl, hstate⟩
      | panicked p => exact ⟨rfl, rfl, hstate⟩

theorem hasNext_beside (ht : tap.Agrees tap' R) (offset : Nat) (h : R s s') :
    Beside (Beside R) (b.hasNext tap offset s) (b.hasNext tap' offset s') := by
  unfold hasNext
  split
  · exact ⟨rfl, rfl, h⟩
  · exact fill_beside ht _ h

theorem bucketFor_beside (ht : tap.Agrees tap' R) (offset : Nat) (h : R s s') :
    Beside (Beside R) (b.bucketFor tap offset s) (b.bucketFor tap' offset s') := by
  obtain ⟨r, b₁, s₁, s₁', hs, hs', hstate⟩ := (hasNext_beside (b := b) ht offset h).split₂
  unfold bucketFor
  rw [hs, hs']
  rcases r with _ | _ | _
  · exact ⟨rfl, rfl, hstate⟩
  · exact ⟨rfl, rfl, hstate⟩
  · dsimp only
    split
    · exact ⟨rfl, rfl, hstate⟩
    · split
      · exact ⟨rfl, rfl, hstate⟩
      · exact ⟨rfl, rfl, hstate⟩

end Buffer

namespace Head

theorem hasNext_beside (ht : tap.Agrees tap' R) (d : Head) (h : R s s') :
    Beside (Beside R) (d.hasNext tap b s) (d.hasNext tap' b s') := by
  unfold hasNext
  split
  · exact ⟨rfl, rfl, h⟩
  · exact Buffer.hasNext_beside ht _ h

theorem lookUp_beside (ht : tap.Agrees tap' R) (d : Head) (h : R s s') :
    Beside (Beside (Beside R)) (d.lookUp tap b s) (d.lookUp tap' b s') := by
  obtain ⟨r, b₁, s₁, s₁', hs, hs', hstate⟩ :=
    (Buffer.bucketFor_beside (b := b) ht d.position h).split₂
  unfold lookUp
  rw [hs, hs']
  rcases r with _ | _ | _
  all_goals exact ⟨rfl, rfl, rfl, hstate⟩

theorem next_beside (ht : tap.Agrees tap' R) (d : Head) (h : R s s') :
    Beside (Beside (Beside R)) (d.next tap b s) (d.next tap' b s') := by
  have hread : Beside (Beside (Beside R)) (d.readAt tap b s) (d.readAt tap' b s') := by
    unfold readAt
    split
    · exact ⟨rfl, rfl, rfl, h⟩
    · exact lookUp_beside ht d h
  unfold next
  split
  · exact ⟨rfl, rfl, rfl, h⟩
  · split
    · exact ⟨rfl, rfl, rfl, h⟩
    · obtain ⟨r, d₁, b₁, s₁, s₁', hs, hs', hstate⟩ := hread.split₃
      rw [hs, hs']
      cases r with
      | ok a => exact ⟨rfl, rfl, rfl, hstate⟩
      | error stop => exact ⟨rfl, rfl, rfl, hstate⟩

end Head
end Replay
