import Replay.Proofs.Accounts.Lent
import Replay.Proofs.Carrying
import Replay.Proofs.Shared.Terminal

/-!
A feed whose buffer is closed does not change: its source is neither pulled nor closed, by whatever
operation on this feed or another.
-/
namespace Replay

open Store

variable {α β : Type} {feed other : Nat}

namespace Feeds

variable {s s' : Feeds α} {draw : Draw α}

/-- If the buffer of `feed` is closed, the feed is unchanged. -/
def Freezes (feed : Nat) (s s' : Feeds α) : Prop :=
  ∀ c b, s.cells[feed]? = some c → c.buffer = some b → b.closed → s'.cells[feed]? = some c

theorem cell_modify_of_ne (hne : other ≠ feed) (f : Feed α → Feed α) :
    (s.modify other f).cells[feed]? = s.cells[feed]? := by
  simp [modify, Array.getElem?_modify, hne]

theorem Freezes.of_cell (h : s'.cells[feed]? = s.cells[feed]?) : s.Freezes feed s' :=
  fun _ _ hc _ _ => h.trans hc

theorem Freezes.modify (hne : other ≠ feed) (f : Feed α → Feed α) :
    Freezes feed s (s.modify other f) := .of_cell (cell_modify_of_ne hne f)

theorem allowsOthers_freezes : AllowsOthers (Freezes (α := α) feed) feed := fun _ hne f _ => .modify hne f

theorem steps_freezes : Steps (Freezes (α := α) feed) where
  refl _ := .of_cell rfl
  trans h h' c b hc hb hclosed := h' c b (h c b hc hb hclosed) hb hclosed
  note _ _ := .of_cell rfl

def Draw.Freezes (draw : Draw α) (feed : Nat) : Prop :=
  ∀ other ≠ feed, ∀ s : Feeds α, s.Freezes feed (draw other s).2

theorem Draw.Freezes.preserves (hd : draw.Freezes feed) (hne : other ≠ feed) {c : Feed α}
    {b : Buffer α} (hb : c.buffer = some b) (hclosed : b.closed) :
    (tap draw other).Preserves fun s => s.cells[feed]? = some c where
  pull h := hd other hne _ c b h hb hclosed
  note _ h := h

theorem freezes_onBuffer {f : Buffer α → Feeds α → Outcome StreamError β × Buffer α × Feeds α}
    (hf : ∀ (c : Feed α) b b', c.buffer = some b → b.closed → other ≠ feed →
      ∀ s : Feeds α, s.cells[feed]? = some c → (f b' s).2.2.cells[feed]? = some c)
    (hrefuses : ∀ b e (s : Feeds α), b.refusal = some e → f b s = (.raise e, b, s)) (s : Feeds α) :
    s.Freezes feed (s.onBuffer other f).2 := by
  intro c b hc hb hclosed
  by_cases hne : other = feed
  · subst hne
    have hbuffer : s.buffer? other = some b := (buffer?_eq hc).trans hb
    have hrefusal := Buffer.refusal_of_isClosed (b := b) (by rw [Buffer.isClosed, hclosed, Bool.true_or])
    simp only [onBuffer, hbuffer, hrefuses b _ _ hrefusal]
    rw [setBuffer_setBuffer hbuffer]
    exact hc
  · unfold onBuffer
    cases hother : s.buffer? other with
    | none => exact hc
    | some b' =>
      have htaken := hf c b b' hb hclosed hne (s.setBuffer other none)
        ((cell_modify_of_ne hne _).trans hc)
      exact (cell_modify_of_ne hne _).trans htaken

end Feeds

namespace Cursor

open Feeds

variable {draw : Draw α} {s : Feeds α}

theorem frozen_of_feed {c : Cursor} {b : Buffer α} (hb : s.buffer? c.feed = some b)
    (hclosed : b.closed) : (c.hasNextBy draw s).2 = s ∧ (c.nextBy draw s).2.2 = s := by
  have hrefusal := Buffer.refusal_of_isClosed (b := b) (by rw [Buffer.isClosed, hclosed, Bool.true_or])
  rw [hasNextBy_of_refusal hb fun _ => hrefusal, nextBy_of_refusal hb fun _ => hrefusal]
  exact ⟨rfl, rfl⟩

theorem freezes_hasNextBy (hd : draw.Freezes feed) (c : Cursor) (s : Feeds α) :
    s.Freezes feed (c.hasNextBy draw s).2 := by
  intro cell b hcell hb hclosed
  by_cases hne : c.feed = feed
  · rw [(frozen_of_feed (hne ▸ (buffer?_eq hcell).trans hb) hclosed).1]
    exact hcell
  · induction c with
    | plain other provider head =>
      unfold hasNextBy onBuffer
      split
      · exact hcell
      · exact (cell_modify_of_ne hne _).trans (Head.hasNext_preserves (hd.preserves hne hb hclosed)
          head ((cell_modify_of_ne hne _).trans hcell))
    | managed janitor released inner ih =>
      unfold hasNextBy
      split
      · exact hcell
      · exact ih hne
    | watched slot act inner ih => exact ih hne

theorem freezes_nextBy (hd : draw.Freezes feed) (c : Cursor) (s : Feeds α) :
    s.Freezes feed (c.nextBy draw s).2.2 := by
  intro cell b hcell hb hclosed
  by_cases hne : c.feed = feed
  · rw [(frozen_of_feed (hne ▸ (buffer?_eq hcell).trans hb) hclosed).2]
    exact hcell
  · induction c with
    | plain other provider head =>
      unfold nextBy
      split
      · exact hcell
      · exact (cell_modify_of_ne hne _).trans (Head.next_preserves (hd.preserves hne hb hclosed)
          head ((cell_modify_of_ne hne _).trans hcell))
    | managed janitor released inner ih =>
      unfold nextBy
      split
      · exact hcell
      · exact ih hne
    | watched slot act inner ih => exact ih hne

theorem freezes_stepBy (hd : draw.Freezes feed) (c : Cursor) (s : Feeds α) :
    s.Freezes feed (c.stepBy draw s).2.2 :=
  c.stepBy_preserves (P := fun place => s.Freezes feed place.2) (c.freezes_hasNextBy hd s)
    fun s' h => steps_freezes.trans h (c.freezes_nextBy hd s')

end Cursor

namespace Feeds

theorem freezes_pullSource {draw : Draw α} (hd : draw.Freezes feed) (s : Feeds α)
    (source : Source α) : s.Freezes feed (s.pullSource draw source).2.2.2 := by
  cases source with
  | iterator ahead =>
    cases ahead with
    | none => exact steps_freezes.refl s
    | some it =>
      unfold pullSource
      dsimp only
      rcases it.next with ⟨_ | _, it'⟩
      · exact steps_freezes.refl s
      · exact steps_freezes.refl s
  | script outcomes pulled hint closing => exact steps_freezes.refl s
  | bytes source item => exact steps_freezes.refl s
  | chain c => exact c.freezes_stepBy hd s

theorem freezes_pull (depth : Nat) : Draw.Freezes (pull (α := α) depth) feed := by
  induction depth with
  | zero => exact fun _ _ s => steps_freezes.refl s
  | succ depth ih =>
    intro other hne s
    unfold pull
    split
    · exact steps_freezes.refl s
    · rename_i source _
      have hpulled := freezes_pullSource ih
        (s.count other fun t => { t with pulls := t.pulls + 1 }) source
      intro c b hc hb hclosed
      have hcell := hpulled c b ((cell_modify_of_ne hne _).trans hc) hb hclosed
      exact (cell_modify_of_ne hne _).trans ((cell_modify_of_ne hne _).trans hcell)

theorem freezes_draw : Draw.Freezes (draw (α := α)) feed :=
  fun other hne s => freezes_pull s.cells.size other hne s

theorem reads_freezes : Reads (Freezes (α := α) feed) where
  hasNext c s := c.freezes_hasNextBy freezes_draw s
  next c s := c.freezes_nextBy freezes_draw s

end Feeds

theorem Switches.Carries.freezes_closeBuffer {w : Switches α} (hw : w.Carries (Feeds.Freezes feed))
    (other : Nat) : (Store.closeBuffer w other).Carries (Feeds.Freezes feed) := by
  by_cases hne : other = feed
  · subst hne
    intro m c b hc hb hclosed
    have hbuffer : m.feeds.buffer? other = some b := (Feeds.buffer?_eq hc).trans hb
    simp only [Store.closeBuffer, Call.run_bind, Call.run_get, hbuffer, hclosed, if_true]
    exact hc
  · exact hw.closeOther Feeds.allowsOthers_freezes hne

theorem carries_freezes (feed left : Nat) :
    (switches left : Switches α).Carries (Feeds.Freezes feed) :=
  .switches Feeds.steps_freezes.store (fun _ hw => Switches.Carries.freezes_closeBuffer hw) left

end Replay
