import Replay.Proofs.Feeds
import Replay.Proofs.Shared.SharedOps

/-!
Reading does not depend on the log. Cursors over feeds that differ only in their logs read the same,
through any depth of chains.
-/
namespace Replay

variable {α β : Type}

namespace Feeds

def SameCells (s s' : Feeds α) : Prop := s.cells = s'.cells

namespace SameCells

variable {s s' : Feeds α} (h : s.SameCells s')

include h

theorem source? (feed : Nat) : s.source? feed = s'.source? feed := by
  rw [Feeds.source?, h, Feeds.source?]

theorem buffer? (feed : Nat) : s.buffer? feed = s'.buffer? feed := by
  rw [Feeds.buffer?, h, Feeds.buffer?]

theorem modify (feed : Nat) (f : Feed α → Feed α) : (s.modify feed f).SameCells (s'.modify feed f) :=
  congrArg (fun cells : Array (Feed α) => cells.modify feed f) h

theorem setBuffer (feed : Nat) (b : Option (Buffer α)) :
    (s.setBuffer feed b).SameCells (s'.setBuffer feed b) := h.modify feed _

end SameCells

def Unlogged (draw : Draw α) : Prop :=
  ∀ feed {s s' : Feeds α}, s.SameCells s' → Beside SameCells (draw feed s) (draw feed s')

theorem Unlogged.agrees {draw : Draw α} (hd : Unlogged draw) (feed : Nat) :
    (Feeds.tap draw feed).Agrees (Feeds.tap draw feed) SameCells where
  pull := hd feed
  note _ h := h

end Feeds

namespace Cursor

open Feeds

variable {draw : Draw α} {s s' : Feeds α}

theorem hasNextBy_beside (hd : Unlogged draw) (c : Cursor) (h : s.SameCells s') :
    Beside SameCells (c.hasNextBy draw s) (c.hasNextBy draw s') := by
  induction c with
  | plain feed provider head =>
    unfold hasNextBy onBuffer
    rw [h.buffer? feed]
    split
    · exact ⟨rfl, h⟩
    · rename_i b _
      obtain ⟨r, b', t, t', hs, hs', hstate⟩ :=
        (head.hasNext_beside (b := b) (hd.agrees feed) (h.setBuffer feed none)).split₂
      rw [hs, hs']
      exact ⟨rfl, hstate.setBuffer feed _⟩
  | managed janitor released inner ih =>
    unfold hasNextBy
    split
    · exact ⟨rfl, h⟩
    · exact ih
  | watched slot act inner ih => exact ih

theorem nextBy_beside (hd : Unlogged draw) (c : Cursor) (h : s.SameCells s') :
    Beside (Beside SameCells) (c.nextBy draw s) (c.nextBy draw s') := by
  induction c with
  | plain feed provider head =>
    unfold nextBy
    rw [h.buffer? feed]
    split
    · exact ⟨rfl, rfl, h⟩
    · rename_i b _
      obtain ⟨r, head', b', t, t', hs, hs', hstate⟩ :=
        (head.next_beside (b := b) (hd.agrees feed) (h.setBuffer feed none)).split₃
      rw [hs, hs']
      exact ⟨rfl, rfl, hstate.setBuffer feed _⟩
  | managed janitor released inner ih =>
    unfold nextBy
    split
    · exact ⟨rfl, rfl, h⟩
    · obtain ⟨r, inner', t, t', hs, hs', hstate⟩ := ih.split₂
      rw [hs, hs']
      exact ⟨rfl, rfl, hstate⟩
  | watched slot act inner ih =>
    obtain ⟨r, inner', t, t', hs, hs', hstate⟩ := ih.split₂
    unfold nextBy
    rw [hs, hs']
    exact ⟨rfl, rfl, hstate⟩

theorem stepBy_beside (hd : Unlogged draw) (c : Cursor) (h : s.SameCells s') :
    Beside (Beside SameCells) (c.stepBy draw s) (c.stepBy draw s') := by
  obtain ⟨r, t, t', hs, hs', hstate⟩ := (c.hasNextBy_beside hd h).split
  unfold stepBy
  rw [hs, hs']
  rcases r with _ | _ | _
  · exact ⟨rfl, rfl, hstate⟩
  · exact ⟨rfl, rfl, hstate⟩
  · obtain ⟨r, c', u, u', hs, hs', hstate⟩ := (c.nextBy_beside hd hstate).split₂
    dsimp only
    rw [hs, hs']
    exact ⟨rfl, rfl, hstate⟩

end Cursor

namespace Feeds

theorem pullSource_beside {draw : Draw α} (hd : Unlogged draw) {s s' : Feeds α}
    (h : s.SameCells s') (source : Source α) :
    Beside (Beside (Beside SameCells)) (s.pullSource draw source) (s'.pullSource draw source) := by
  cases source with
  | iterator ahead =>
    cases ahead with
    | none => exact ⟨rfl, rfl, rfl, h⟩
    | some it =>
      unfold pullSource
      dsimp only
      rcases it.next with ⟨_ | _, it'⟩
      · exact ⟨rfl, rfl, rfl, h⟩
      · exact ⟨rfl, rfl, rfl, h⟩
  | script outcomes pulled hint closing => exact ⟨rfl, rfl, rfl, h⟩
  | bytes source item => exact ⟨rfl, rfl, rfl, h⟩
  | chain c =>
    obtain ⟨r, c', t, t', hs, hs', hstate⟩ := (c.stepBy_beside hd h).split₂
    unfold pullSource
    dsimp only
    rw [hs, hs']
    exact ⟨rfl, rfl, rfl, hstate⟩

theorem unlogged_pull (depth : Nat) : Unlogged (pull (α := α) depth) := by
  induction depth with
  | zero => exact fun _ _ _ h => ⟨rfl, h⟩
  | succ depth ih =>
    intro feed s s' h
    unfold pull
    rw [h.source? feed]
    split
    · exact ⟨rfl, h⟩
    · rename_i source _
      obtain ⟨r, source', reads, t, t', hs, hs', hstate⟩ :=
        (pullSource_beside ih (h.modify feed _) source).split₃
      dsimp only [count]
      rw [hs, hs']
      exact ⟨rfl, (hstate.modify feed _).modify feed _⟩

theorem unlogged_draw : Unlogged (draw (α := α)) := by
  intro feed s s' h
  unfold draw
  rw [h]
  exact unlogged_pull s'.cells.size feed h

end Feeds

structure Cursor.Alongside (P : Cursor × Feeds α → Cursor × Feeds α → Prop) : Prop where
  position : ∀ x y, P x y → x.1.position = y.1.position
  hasNext : ∀ x y, P x y →
    Beside (fun t t' => P (x.1, t) (y.1, t')) (x.1.hasNext x.2) (y.1.hasNext y.2)
  next : ∀ x y, P x y → Beside P (x.1.next x.2) (y.1.next y.2)

theorem Cursor.Alongside.reader {P : Cursor × Feeds α → Cursor × Feeds α → Prop}
    (hP : Alongside P) : (Cursor.reader (α := α)).Agrees Cursor.reader P := by
  rintro ⟨c, s⟩ ⟨c', s'⟩ h
  obtain ⟨r, t, t', hs, hs', hstate⟩ := (hP.hasNext _ _ h).split
  simp only [Cursor.reader, Cursor.stepBy]
  rw [Cursor.hasNext] at hs hs'
  rw [hs, hs']
  rcases r with _ | _ | _
  · exact ⟨rfl, hstate⟩
  · exact ⟨rfl, hstate⟩
  · have hnext := hP.next _ _ hstate
    exact ⟨congrArg (·.map some) hnext.1, hnext.2⟩

theorem Cursor.alongside_sameCells :
    Cursor.Alongside (α := α) fun x y => x.1 = y.1 ∧ x.2.SameCells y.2 where
  position _ _ h := congrArg Cursor.position h.1
  hasNext := by
    rintro ⟨c, s⟩ ⟨_, s'⟩ ⟨rfl, h⟩
    have hnext := c.hasNextBy_beside Feeds.unlogged_draw h
    exact ⟨hnext.1, rfl, hnext.2⟩
  next := by
    rintro ⟨c, s⟩ ⟨_, s'⟩ ⟨rfl, h⟩
    exact c.nextBy_beside Feeds.unlogged_draw h

def CursorOp.Reads : CursorOp → Prop
  | hasNext | next | read _ | items _ | drain _ => True
  | _ => False

theorem CursorOp.reads_or (t : CursorOp) :
    t.Reads ∨ (∃ position, t = .seek position) ∨ t = .release ∨ t = .close := by
  cases t with
  | hasNext => exact .inl trivial
  | next => exact .inl trivial
  | read room => exact .inl trivial
  | items count => exact .inl trivial
  | drain most => exact .inl trivial
  | seek position => exact .inr (.inl ⟨position, rfl⟩)
  | release => exact .inr (.inr (.inl rfl))
  | close => exact .inr (.inr (.inr rfl))

theorem CursorOp.Reads.beside {P : Cursor × Feeds α → Cursor × Feeds α → Prop}
    (hP : Cursor.Alongside P) {t : CursorOp} (ht : t.Reads) {c d : Cursor} (m m' : Store α)
    (h : P (c, m.feeds) (d, m'.feeds)) :
    ((t.perform c).run m).1.1 = ((t.perform d).run m').1.1 ∧
      P (((t.perform c).run m).1.2, ((t.perform c).run m).2.feeds)
        (((t.perform d).run m').1.2, ((t.perform d).run m').2.feeds) := by
  have hposition : c.position = d.position := hP.position _ _ h
  have hstart : ∀ failed, Reader.Agrees.Along P ⟨(c, m.feeds), failed⟩ ⟨(d, m'.feeds), failed⟩ :=
    fun _ => ⟨rfl, h⟩
  cases t with
  | hasNext =>
    have hhas := hP.hasNext _ _ h
    exact ⟨congrArg₂ Reply.flag hposition hhas.1, hhas.2⟩
  | next =>
    have hnext := hP.next _ _ h
    exact ⟨congrArg₂ Reply.item hposition hnext.1, hnext.2⟩
  | read room =>
    have hfill := hP.reader.fill room h
    exact ⟨congrArg₂ Reply.read hposition hfill.1, hfill.2⟩
  | items count =>
    have htake := hP.reader.take count (hstart false)
    exact ⟨congrArg₂ Reply.items hposition htake.1, htake.2.2⟩
  | drain most =>
    have hdrain := hP.reader.drain most #[] (hstart false)
    exact ⟨congrArg₂ Reply.drained hposition hdrain.1, hdrain.2.2⟩
  | seek position => cases ht
  | release => cases ht
  | close => cases ht

theorem CursorOp.Reads.store {t : CursorOp} (ht : t.Reads) (c : Cursor) (m : Store α) :
    ((t.perform c).run m).2 = { m with feeds := ((t.perform c).run m).2.feeds } := by
  cases t with
  | hasNext => rfl
  | next => rfl
  | read room => rfl
  | items count => rfl
  | drain most => rfl
  | seek position => cases ht
  | release => cases ht
  | close => cases ht

end Replay
