import Replay.Proofs.Carrying
import Replay.Proofs.Feeds

/-!
A feed with a closed buffer stays as it is during teardown, and its source is not closed again. When a
buffer closes, the calls in between do not matter to it: the result is the closed buffer, and one more
close of the source if the buffer owns it.
-/
namespace Replay

open Store

variable {α β : Type}

namespace Feeds

def closes (s : Feeds α) (feed : Nat) : Nat := (s.cells[feed]?.map (·.tally.closes)).getD 0

/-- A closed buffer and the close count of its source are unchanged. -/
def KeepsClosedFeed (feed : Nat) (s s' : Feeds α) : Prop :=
  ∀ b, s.buffer? feed = some b → b.closed →
    s'.buffer? feed = some b ∧ s'.closes feed = s.closes feed

variable {s s' s'' : Feeds α} {feed other : Nat}

namespace KeepsClosedFeed

theorem refl (feed : Nat) (s : Feeds α) : KeepsClosedFeed feed s s := fun _ hb _ => ⟨hb, rfl⟩

theorem trans (h : KeepsClosedFeed feed s s') (h' : KeepsClosedFeed feed s' s'') :
    KeepsClosedFeed feed s s'' := by
  intro b hb hclosed
  obtain ⟨hb', hcloses⟩ := h b hb hclosed
  obtain ⟨hb'', hcloses'⟩ := h' b hb' hclosed
  exact ⟨hb'', hcloses'.trans hcloses⟩

theorem of_cells (h : s'.cells = s.cells) : KeepsClosedFeed feed s s' := by
  intro b hb _
  rw [buffer?, closes, h]
  exact ⟨hb, rfl⟩

theorem modify_of_ne (hne : other ≠ feed) (f : Feed α → Feed α) :
    KeepsClosedFeed feed s (s.modify other f) := by
  have hcell : (s.modify other f).cells[feed]? = s.cells[feed]? := by
    simp [Feeds.modify, Array.getElem?_modify, hne]
  intro b hb _
  rw [buffer?, closes, hcell]
  exact ⟨hb, rfl⟩

theorem setSource (source : Option (Source α)) : KeepsClosedFeed feed s (s.setSource other source) := by
  intro b hb _
  obtain ⟨c, hc, hcb⟩ := Option.bind_eq_some_iff.mp hb
  simp only [buffer?, closes, Feeds.setSource, Feeds.modify, Array.getElem?_modify, hc]
  split
  · exact ⟨hcb, rfl⟩
  · exact ⟨hcb, rfl⟩

end KeepsClosedFeed

theorem steps_keepsClosedFeed : Steps (KeepsClosedFeed (α := α) feed) where
  refl := .refl feed
  trans := .trans
  note _ _ := .of_cells rfl

theorem allowsOthers_keepsClosedFeed : AllowsOthers (KeepsClosedFeed (α := α) feed) feed :=
  fun _ hne f _ => .modify_of_ne hne f

theorem closes_setBuffer (b : Option (Buffer α)) : (s.setBuffer other b).closes feed = s.closes feed := by
  simp only [closes, setBuffer, Feeds.modify, Array.getElem?_modify]
  split
  · cases s.cells[feed]? with
    | none => rfl
    | some c => rfl
  · rfl

theorem buffer?_count (f : Tally → Tally) : (s.count feed f).buffer? feed = s.buffer? feed := by
  simp only [buffer?, count, Feeds.modify, Array.getElem?_modify, if_true]
  cases s.cells[feed]? with
  | none => rfl
  | some c => rfl

theorem closes_count {source : Source α} (h : s.source? feed = some source) :
    (s.count feed fun t => { t with closes := t.closes + 1 }).closes feed = s.closes feed + 1 := by
  obtain ⟨c, hc, -⟩ := Option.bind_eq_some_iff.mp h
  rw [closes, closes, count, cell_modify hc, hc, Option.map_some, Option.map_some, Option.getD_some,
    Option.getD_some]

theorem lt_of_buffer? {b : Buffer α} (hb : s.buffer? feed = some b) : feed < s.cells.size := by
  obtain ⟨c, hc, -⟩ := Option.bind_eq_some_iff.mp hb
  exact (Array.getElem?_eq_some_iff.mp hc).1

end Feeds

namespace Store.Call

variable {feed : Nat}

def KeepsClosedFeed (feed : Nat) (f : Call α β) : Prop :=
  ∀ m : Store α, m.feeds.KeepsClosedFeed feed (f.run m).2.feeds

end Store.Call

structure Switches.KeepsClosedFeed (w : Switches α) (feed : Nat) : Prop where
  close : ∀ j, (w.close j).KeepsClosedFeed feed
  release : ∀ j, (w.release j).KeepsClosedFeed feed
  closeBuffer : ∀ other, (w.closeBuffer other).KeepsClosedFeed feed

variable {w : Switches α} {feed other : Nat}

namespace Switches.KeepsClosedFeed

theorem carries (hw : w.KeepsClosedFeed feed) : w.Carries (Feeds.KeepsClosedFeed feed) :=
  ⟨Feeds.steps_keepsClosedFeed.store, hw.close, hw.release, hw.closeBuffer⟩

theorem dropSource (hw : w.KeepsClosedFeed feed) (other : Nat) :
    (Store.dropSource w other).KeepsClosedFeed feed := by
  refine hw.carries.bind hw.carries.get fun m => ?_
  split
  · exact hw.carries.pure _
  · exact hw.carries.bind (fun _ => .setSource _) fun _ => hw.carries.dropSourceLayers _

theorem partSource (hw : w.KeepsClosedFeed feed) {m : Store α} {b : Buffer α}
    (hb : m.feeds.buffer? feed = some b) (hclosed : b.closed) (hsource : (m.feeds.source? feed).isSome)
    (ownership : Ownership) :
    let m' := ((do
      let outcome ← match ownership with
        | .owned => Store.closeSource w feed
        | .borrowed => pure (.ok ())
      Store.dropSource w feed
      return outcome : Call α (Outcome SourceError Unit)).run m).2
    m'.feeds.buffer? feed = some b ∧
      m'.feeds.closes feed = m.feeds.closes feed + if ownership = .owned then 1 else 0 := by
  cases ownership with
  | borrowed => exact hw.dropSource feed m b hb hclosed
  | owned =>
    obtain ⟨source, hs⟩ := Option.isSome_iff_exists.mp hsource
    obtain ⟨m₁, hm₁⟩ : ∃ m₁ : Store α, m₁ = { m with
      feeds := m.feeds.count feed fun t => { t with closes := t.closes + 1 } } := ⟨_, rfl⟩
    have hclose : Call.KeepsClosedFeed feed (do
        let x ← source.closeUncounted w
        modify fun m => { m with feeds := m.feeds.setSource feed (some x.2) }
        Store.dropSource w feed
        return x.1 : Call α (Outcome SourceError Unit)) := by
      refine hw.carries.bind (hw.carries.closeSourceLayers _) fun _ => ?_
      refine hw.carries.bind (fun _ => .setSource _) fun _ => ?_
      refine hw.carries.bind (hw.dropSource feed) fun _ => ?_
      exact hw.carries.pure _
    obtain ⟨hb', hcloses⟩ := hclose m₁ b (by rw [hm₁]; exact (Feeds.buffer?_count _).trans hb) hclosed
    rw [hm₁] at hb' hcloses
    simp only [Store.closeSource, Source.close_eq, Call.run_bind, Call.run_get, hs, Call.run_modify,
      Call.run_pure, if_true] at hb' hcloses ⊢
    exact ⟨hb', hcloses.trans (Feeds.closes_count hs)⟩

/-- Closing an open buffer closes the source once if it is owned, and drops it. -/
theorem closeBuffer_of_open (hw : w.KeepsClosedFeed feed) {m : Store α} {b : Buffer α}
    (hb : m.feeds.buffer? feed = some b) (hopen : b.closed = false)
    (hsource : (m.feeds.source? feed).isSome) :
    ((Store.closeBuffer w feed).run m).2.feeds.buffer? feed = some b.close ∧
      ((Store.closeBuffer w feed).run m).2.feeds.closes feed =
        m.feeds.closes feed + if b.ownership = .owned then 1 else 0 := by
  obtain ⟨m₁, hm₁⟩ : ∃ m₁, m₁ = ((note (.bufferClosed b.consumed b.ownership)).run
    { m with feeds := m.feeds.setBuffer feed (some b.close) }).2 := ⟨_, rfl⟩
  have hb₁ : m₁.feeds.buffer? feed = some b.close := by
    rw [hm₁]
    exact Feeds.buffer?_setBuffer (Feeds.lt_of_buffer? hb) _
  have hsource₁ : m₁.feeds.source? feed = m.feeds.source? feed := by
    rw [hm₁]
    exact Feeds.source?_setBuffer ..
  have hcloses₁ : m₁.feeds.closes feed = m.feeds.closes feed := by
    rw [hm₁]
    exact Feeds.closes_setBuffer _
  have hparted := hw.partSource hb₁ rfl (hsource₁ ▸ hsource) b.ownership
  rw [hcloses₁, hm₁] at hparted
  simp only [Store.closeBuffer, Call.run_bind, Call.run_get, hb, hopen, Bool.false_eq_true, if_false,
    Call.run_modify]
  exact hparted

end Switches.KeepsClosedFeed

theorem keepsClosedFeed_switches (left : Nat) : (switches left : Switches α).KeepsClosedFeed feed := by
  have hcarries : (switches left : Switches α).Carries (Feeds.KeepsClosedFeed feed) := by
    refine .switches Feeds.steps_keepsClosedFeed.store (fun left hw other => ?_) left
    by_cases hne : other = feed
    · -- closing a closed buffer has no effect
      subst hne
      intro m b hb hclosed
      simp only [Store.closeBuffer, Call.run_bind, Call.run_get, hb, hclosed, if_true]
      exact ⟨hb, rfl⟩
    · exact hw.closeOther Feeds.allowsOthers_keepsClosedFeed hne
  exact ⟨hcarries.close, hcarries.release, hcarries.closeBuffer⟩

end Replay
