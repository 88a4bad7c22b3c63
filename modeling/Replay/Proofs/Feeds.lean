import Replay.Proofs.Buffer.Agreeing
import Replay.Feeds

/-!
Reading keeps the number of feeds. A buffer only pulls and notes through its tap, so whatever these two
preserve, reading preserves; a feed is pulled by reading older feeds.
-/
namespace Replay

variable {α σ : Type}

structure Tap.Preserves (tap : Tap α σ) (I : σ → Prop) : Prop where
  pull : ∀ {s}, I s → I (tap.pull s).2
  note : ∀ {s} e, I s → I (tap.note e s)

variable {tap : Tap α σ} {I : σ → Prop} {b : Buffer α} {s : σ}

theorem Tap.Preserves.agrees (ht : tap.Preserves I) : tap.Agrees tap fun s s' => s = s' ∧ I s where
  pull := by
    rintro s s' ⟨rfl, h⟩
    exact ⟨rfl, rfl, ht.pull h⟩
  note := by
    rintro s s' e ⟨rfl, h⟩
    exact ⟨rfl, ht.note e h⟩

theorem Buffer.hasNext_preserves (ht : tap.Preserves I) (offset : Nat) (h : I s) :
    I (b.hasNext tap offset s).2.2 := (b.hasNext_beside ht.agrees offset ⟨rfl, h⟩).2.2.2

theorem Buffer.bucketFor_preserves (ht : tap.Preserves I) (offset : Nat) (h : I s) :
    I (b.bucketFor tap offset s).2.2 := (b.bucketFor_beside ht.agrees offset ⟨rfl, h⟩).2.2.2

theorem Head.hasNext_preserves (ht : tap.Preserves I) (d : Head) (h : I s) :
    I (d.hasNext tap b s).2.2 := (d.hasNext_beside ht.agrees ⟨rfl, h⟩).2.2.2

theorem Head.next_preserves (ht : tap.Preserves I) (d : Head) (h : I s) :
    I (d.next tap b s).2.2.2 := (d.next_beside ht.agrees ⟨rfl, h⟩).2.2.2.2

namespace Feeds

@[simp] theorem size_modify (s : Feeds α) (feed : Nat) (f : Feed α → Feed α) :
    (s.modify feed f).cells.size = s.cells.size := by
  simp [modify]

theorem source?_setBuffer (s : Feeds α) (feed other : Nat) (b : Option (Buffer α)) :
    (s.setBuffer feed b).source? other = s.source? other := by
  simp only [source?, setBuffer, modify, Array.getElem?_modify]
  split
  · cases s.cells[other]? with
    | none => rfl
    | some c => rfl
  · rfl

@[simp] theorem size_setBuffer (s : Feeds α) (feed : Nat) (b : Option (Buffer α)) :
    (s.setBuffer feed b).cells.size = s.cells.size := size_modify ..

/-- A relation on feeds that contains every change of one feed and every log entry. -/
structure Unrestricted (R : Feeds α → Feeds α → Prop) : Prop where
  refl : ∀ s, R s s
  trans : ∀ {s s' s''}, R s s' → R s' s'' → R s s''
  note : ∀ e s, R s (s.note e)
  modify : ∀ feed f s, R s (s.modify feed f)

def Draw.Within (R : Feeds α → Feeds α → Prop) (draw : Draw α) : Prop := ∀ feed s, R s (draw feed s).2

def SizePreserving (draw : Draw α) : Prop := ∀ feed s, (draw feed s).2.cells.size = s.cells.size

variable {R : Feeds α → Feeds α → Prop} {draw : Draw α} {s : Feeds α}

theorem Unrestricted.preserves (hR : Unrestricted R) (hd : draw.Within R) (s : Feeds α) (feed : Nat) :
    (Feeds.tap draw feed).Preserves (R s) where
  pull h := hR.trans h (hd feed _)
  note e h := hR.trans h (hR.note e _)

end Feeds

namespace Cursor

open Feeds

variable {draw : Draw α} {R : Feeds α → Feeds α → Prop} {k : Nat} {s : Feeds α}

theorem stepBy_preserves {P : Cursor × Feeds α → Prop} (c : Cursor) (hhas : P (c, (c.hasNextBy draw s).2))
    (hnext : ∀ s', P (c, s') → P (c.nextBy draw s').2) : P (c.stepBy draw s).2 := by
  unfold stepBy
  rcases hr : c.hasNextBy draw s with ⟨_ | _ | _, s'⟩
  · rw [hr] at hhas
    exact hhas
  · rw [hr] at hhas
    exact hhas
  · rw [hr] at hhas
    exact hnext s' hhas

end Cursor

namespace Feeds.Unrestricted

variable {draw : Draw α} {R : Feeds α → Feeds α → Prop}

theorem hasNextBy (hR : Unrestricted R) (hd : draw.Within R) (c : Cursor) (s : Feeds α) :
    R s (c.hasNextBy draw s).2 := by
  induction c with
  | plain feed provider head =>
    unfold Cursor.hasNextBy onBuffer
    split
    · exact hR.refl s
    · have htaken : R s (s.setBuffer feed none) := hR.modify feed _ s
      exact hR.trans (Head.hasNext_preserves (hR.preserves hd s feed) head htaken) (hR.modify feed _ _)
  | managed janitor released inner ih =>
    unfold Cursor.hasNextBy
    split
    · exact hR.refl s
    · exact ih
  | watched slot act inner ih => exact ih

theorem nextBy (hR : Unrestricted R) (hd : draw.Within R) (c : Cursor) (s : Feeds α) :
    R s (c.nextBy draw s).2.2 := by
  induction c with
  | plain feed provider head =>
    unfold Cursor.nextBy
    split
    · exact hR.refl s
    · have htaken : R s (s.setBuffer feed none) := hR.modify feed _ s
      exact hR.trans (Head.next_preserves (hR.preserves hd s feed) head htaken) (hR.modify feed _ _)
  | managed janitor released inner ih =>
    unfold Cursor.nextBy
    split
    · exact hR.refl s
    · exact ih
  | watched slot act inner ih => exact ih

theorem stepBy (hR : Unrestricted R) (hd : draw.Within R) (c : Cursor) (s : Feeds α) :
    R s (c.stepBy draw s).2.2 :=
  c.stepBy_preserves (P := fun place => R s place.2) (hR.hasNextBy hd c s)
    fun s' hs' => hR.trans hs' (hR.nextBy hd c s')

theorem pullSource (hR : Unrestricted R) (hd : draw.Within R) (s : Feeds α) (source : Source α) :
    R s (s.pullSource draw source).2.2.2 := by
  cases source with
  | iterator ahead =>
    cases ahead with
    | none => exact hR.refl s
    | some it =>
      unfold Feeds.pullSource
      dsimp only
      rcases it.next with ⟨_ | _, it'⟩
      · exact hR.refl s
      · exact hR.refl s
  | script outcomes pulled hint closing => exact hR.refl s
  | bytes source item => exact hR.refl s
  | chain c => exact hR.stepBy hd c s

theorem pull (hR : Unrestricted R) (depth : Nat) : (Feeds.pull (α := α) depth).Within R := by
  induction depth with
  | zero => exact fun _ => hR.refl
  | succ depth ih =>
    intro feed s
    unfold Feeds.pull
    split
    · exact hR.refl s
    · exact hR.trans (hR.trans (hR.trans (hR.modify feed _ s) (hR.pullSource ih _ _)) (hR.modify feed _ _))
        (hR.modify feed _ _)

theorem draws (hR : Unrestricted R) : (Feeds.draw (α := α)).Within R :=
  fun feed s => hR.pull s.cells.size feed s

end Feeds.Unrestricted

namespace Feeds

theorem unrestricted_size : Unrestricted fun s s' : Feeds α => s'.cells.size = s.cells.size where
  refl _ := rfl
  trans h h' := h'.trans h
  note _ _ := rfl
  modify _ _ _ := size_modify ..

theorem sizePreserving_pull (depth : Nat) : SizePreserving (pull (α := α) depth) :=
  unrestricted_size.pull depth

theorem sizePreserving_draw : SizePreserving (draw (α := α)) := unrestricted_size.draws

variable {draw : Draw α} {k : Nat} {s : Feeds α}

theorem SizePreserving.preserves (hd : SizePreserving draw) (feed : Nat) :
    (Feeds.tap draw feed).Preserves fun s => s.cells.size = k where
  pull := fun h => (hd feed _).trans h
  note := fun _ h => h

end Feeds

namespace Cursor

open Feeds

variable {draw : Draw α} {k : Nat} {s : Feeds α}

theorem size_hasNextBy (hd : SizePreserving draw) (c : Cursor) (h : s.cells.size = k) :
    (c.hasNextBy draw s).2.cells.size = k := (unrestricted_size.hasNextBy hd c s).trans h

theorem size_nextBy (hd : SizePreserving draw) (c : Cursor) (h : s.cells.size = k) :
    (c.nextBy draw s).2.2.cells.size = k := (unrestricted_size.nextBy hd c s).trans h

end Cursor
end Replay
