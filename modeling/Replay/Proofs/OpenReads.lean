import Replay.Proofs.Accounts.Lent
import Replay.Proofs.Shared.SharedOps

/-!
No operation on a cursor over an open feed returns `buffer_closed`.
-/
namespace Replay

open Store

variable {α : Type}

def Reply.HasError (e : StreamError) : Reply α → Prop
  | flag _ r => r = .raise e
  | bucket _ r => r = .raise e
  | item _ r => r = .raise e
  | moved r => r = .error e
  | read _ r => r = .raise e
  | items _ r => ∃ entries, r = .ok entries ∧ some (.error e) ∈ entries
  | drained _ r => ∃ got, r = .ok (got, some e)
  | done | refused | closed _ => False

theorem Feeds.isOpen_iff {s : Feeds α} {feed : Nat} :
    s.isOpen feed ↔ ∃ b, s.buffer? feed = some b ∧ b.closed = false := by
  rw [isOpen, Option.any_eq_true]
  simp

namespace Cursor

theorem feed_bare (c : Cursor) : c.bare.feed = c.feed := by
  induction c with
  | plain feed provider head => rfl
  | managed janitor released inner ih => exact ih
  | watched slot act inner ih => exact ih

variable {s : Feeds α} {draw : Feeds.Draw α}

theorem hasNextBy_ne_closed {c : Cursor} (hopen : s.isOpen c.feed) :
    (c.hasNextBy draw s).1 ≠ .raise .bufferClosed := by
  induction c with
  | plain feed provider head =>
    obtain ⟨b, hb, hclosed⟩ := Feeds.isOpen_iff.mp hopen
    unfold hasNextBy Feeds.onBuffer
    rw [show s.buffer? feed = some b from hb]
    exact head.hasNext_ne_closed hclosed
  | managed janitor released inner ih =>
    unfold hasNextBy
    split
    · rintro ⟨⟩
    · exact ih hopen
  | watched slot act inner ih => exact ih hopen

theorem nextBy_ne_closed {c : Cursor} (hopen : s.isOpen c.feed) :
    (c.nextBy draw s).1 ≠ .raise .bufferClosed := by
  induction c with
  | plain feed provider head =>
    obtain ⟨b, hb, hclosed⟩ := Feeds.isOpen_iff.mp hopen
    unfold nextBy
    rw [show s.buffer? feed = some b from hb]
    exact head.next_ne_closed hclosed
  | managed janitor released inner ih =>
    unfold nextBy
    split
    · rintro ⟨⟩
    · exact ih hopen
  | watched slot act inner ih => exact ih hopen

theorem stepBy_ne {e : StreamError} {c : Cursor} (hhas : (c.hasNextBy draw s).1 ≠ .raise e)
    (hnext : (c.nextBy draw (c.hasNextBy draw s).2).1 ≠ .raise e) : (c.stepBy draw s).1 ≠ .raise e := by
  unfold stepBy
  rcases hr : c.hasNextBy draw s with ⟨_ | _ | _, s'⟩
  · rw [hr] at hhas
    rintro ⟨⟩
    exact hhas rfl
  · nofun
  · rw [hr] at hnext
    dsimp only at hnext ⊢
    rcases hn : c.nextBy draw s' with ⟨_ | _, c', s''⟩
    · rw [hn] at hnext
      rintro ⟨⟩
      exact hnext rfl
    · nofun

theorem stepBy_ne_closed (hd : Feeds.EndsNothing draw) {c : Cursor} (hopen : s.isOpen c.feed) :
    (c.stepBy draw s).1 ≠ .raise .bufferClosed :=
  stepBy_ne (hasNextBy_ne_closed hopen)
    (nextBy_ne_closed (((c.readsTo_hasNextBy hd).alike.isOpen c.feed).trans hopen))

theorem Stays.isOpen {c : Cursor} {place : Cursor × Feeds α} (hopen : s.isOpen c.feed)
    (h : c.Stays s place) : place.2.isOpen place.1.feed := by
  rw [h.1.alike.isOpen, ← feed_bare, h.2, feed_bare]
  exact hopen

theorem seek_ne_closed (c : Cursor) (position : Nat) : c.seek position ≠ .error .bufferClosed := by
  induction c with
  | plain feed provider head =>
    unfold seek Head.seek
    split
    · rintro ⟨⟩
    · rintro ⟨⟩
  | managed janitor released inner ih =>
    unfold seek
    split
    · rintro ⟨⟩
    · cases hs : inner.seek position with
      | error e =>
        rw [hs] at ih
        rintro ⟨⟩
        exact ih rfl
      | ok d => rintro ⟨⟩
  | watched slot act inner ih =>
    unfold seek
    cases hs : inner.seek position with
    | error e =>
      rw [hs] at ih
      rintro ⟨⟩
      exact ih rfl
    | ok d => rintro ⟨⟩

end Cursor

theorem CursorOp.not_hasError {e : StreamError} {c : Cursor} {m : Store α} {I : Cursor × Feeds α → Prop}
    (hkeeps : Cursor.reader.Preserves I) (hsteps : ∀ place, I place → (Cursor.reader.step place).1 ≠ .raise e)
    (hstart : I (c, m.feeds)) (hhas : (c.hasNext m.feeds).1 ≠ .raise e)
    (hnext : (c.next m.feeds).1 ≠ .raise e) (hseek : ∀ position, c.seek position ≠ .error e) (t : CursorOp) :
    ¬ ((t.perform c).run m).1.1.HasError e := by
  have hitems : I (Items.mk (c, m.feeds) false).rest := hstart
  cases t with
  | hasNext => exact hhas
  | next => exact hnext
  | seek position =>
    rw [CursorOp.perform]
    cases hs : c.seek position with
    | ok d => nofun
    | error e =>
      rintro ⟨⟩
      exact hseek position hs
  | release => exact id
  | close => exact id
  | read room => exact hkeeps.fill_ne hsteps room hstart
  | items count =>
    rintro ⟨entries, hentries, hmem⟩
    exact hkeeps.take_ne hsteps count hitems hentries hmem
  | drain most =>
    rintro ⟨got, hgot⟩
    exact hkeeps.drain_ne hsteps most #[] hitems got hgot

theorem CursorOp.not_hasError_closed {c : Cursor} {m : Store α} (hopen : m.feeds.isOpen c.feed)
    (t : CursorOp) :
    ¬ ((t.perform c).run m).1.1.HasError .bufferClosed :=
  CursorOp.not_hasError (c.preserves_reader m.feeds)
    (fun _ h => Cursor.stepBy_ne_closed Feeds.endsNothing_draw (h.isOpen hopen))
    (Cursor.Stays.start c m.feeds)
    (Cursor.hasNextBy_ne_closed hopen) (Cursor.nextBy_ne_closed hopen) c.seek_ne_closed t

end Replay
