import Replay.Proofs.Accounts.Opening
import Replay.Proofs.Unlogged

/-!
Stores that agree below a janitor. Teardown reads neither the log nor the statistics, and only the
janitors it tears down. So it has the same effects in all stores that agree on the janitors below a
slot, if each has enough switches for what is pending in it.
-/
namespace Replay

open Store

variable {α β γ : Type}

namespace Store

namespace Call

/-- From related stores, the same result and related stores. -/
def Along (R : Store α → Store α → Prop) (f g : Call α β) : Prop :=
  ∀ m m', R m m' → Beside R (f.run m) (g.run m')

namespace Along

variable {R : Store α → Store α → Prop}

theorem pure (x : β) : Call.Along R (Pure.pure x : Call α β) (Pure.pure x) := fun _ _ h => ⟨rfl, h⟩

theorem bindThat {P : β → Prop} {f f' : Call α β} {g g' : β → Call α γ} (hf : f.Along R f')
    (hP : ∀ m m', R m m' → P (f.run m).1) (hg : ∀ x, P x → (g x).Along R (g' x)) :
    (f >>= g).Along R (f' >>= g') := by
  intro m m' h
  have hx := hP m m' h
  obtain ⟨x, n, n', hrun, hrun', hstate⟩ := (hf m m' h).split
  rw [hrun] at hx
  rw [run_bind, run_bind, hrun, hrun']
  exact hg x hx n n' hstate

theorem bind {f f' : Call α β} {g g' : β → Call α γ} (hf : f.Along R f')
    (hg : ∀ x, (g x).Along R (g' x)) : (f >>= g).Along R (f' >>= g') :=
  hf.bindThat (P := fun _ => True) (fun _ _ _ => trivial) fun x _ => hg x

theorem map (g : β → γ) {f f' : Call α β} (hf : f.Along R f') : (g <$> f).Along R (g <$> f') :=
  fun m m' h => ⟨congrArg g (hf m m' h).1, (hf m m' h).2⟩

theorem get {f f' : Store α → Call α β} (hf : ∀ m m', R m m' → (f m).Along R (f' m')) :
    (MonadState.get >>= f).Along R (MonadState.get >>= f') :=
  fun m m' h => hf m m' h m m' h

end Along
end Call

end Store

namespace Feeds.SameCells

variable {s s' : Feeds α} (h : s.SameCells s')

include h

theorem isOpen (feed : Nat) : s.isOpen feed = s'.isOpen feed := by
  rw [Feeds.isOpen, h.buffer?, Feeds.isOpen]

theorem chained (feed : Nat) : s.chained feed = s'.chained feed := by
  rw [Feeds.chained, h.source?, Feeds.chained]

theorem lent (feed : Nat) : s.lent feed = s'.lent feed := by
  rw [Feeds.lent, h.isOpen, h.chained, Feeds.lent]

end Feeds.SameCells

/-- The state of a janitor up to its `demands`. -/
def JanitorState.unasked (t : JanitorState) : JanitorState := { t with demands := 0 }

namespace Store

/-- The stores agree on the janitors below `n`, up to `demands`, and on feeds, bases and scripts. -/
structure Shares (r : Roster) (n : Nat) (m m' : Store α) : Prop where
  cells : m.feeds.SameCells m'.feeds
  bases : m.closedBases = m'.closedBases
  scripts : m.scripts = m'.scripts
  ids : m.nextProvider = m'.nextProvider
  size : n ≤ m.janitors.size
  size' : n ≤ m'.janitors.size
  janitors : ∀ slot < n, (m.janitor slot).unasked = (m'.janitor slot).unasked
  covers : r.Covers m

/-- `m'` differs from `m` at most in the log, the statistics and the managers. -/
structure Notes (m m' : Store α) : Prop where
  cells : m'.feeds.cells = m.feeds.cells
  bases : m'.closedBases = m.closedBases
  scripts : m'.scripts = m.scripts
  ids : m'.nextProvider = m.nextProvider
  janitors : m'.janitors = m.janitors

variable {r : Roster} {n k a b slot feed : Nat} {m m' m'' m₁ m₁' : Store α}

theorem Notes.covers (h : m.Notes m') (hm : r.Covers m) : r.Covers m' := by
  refine hm.of_same (fun feed c hc => ?_) fun slot => ?_
  · rwa [Feeds.SameCells.lent h.cells] at hc
  · rw [Store.script, h.scripts, Store.script]

namespace Shares

theorem refl (hm : r.Covers m) (hn : n ≤ m.janitors.size) : Shares r n m m where
  cells := rfl
  bases := rfl
  scripts := rfl
  ids := rfl
  size := hn
  size' := hn
  janitors _ _ := rfl
  covers := hm

theorem covers' (h : Shares r n m m') : r.Covers m' := by
  refine h.covers.of_same (fun feed c hc => ?_) fun slot => ?_
  · rwa [← h.cells.lent] at hc
  · rw [Store.script, Store.script, h.scripts]

theorem symm (h : Shares r n m m') : Shares r n m' m where
  cells := h.cells.symm
  bases := h.bases.symm
  scripts := h.scripts.symm
  ids := h.ids.symm
  size := h.size'
  size' := h.size
  janitors slot hslot := (h.janitors slot hslot).symm
  covers := h.covers'

theorem trans (h : Shares r n m m') (h' : Shares r n m' m'') : Shares r n m m'' where
  cells := h.cells.trans h'.cells
  bases := h.bases.trans h'.bases
  scripts := h.scripts.trans h'.scripts
  ids := h.ids.trans h'.ids
  size := h.size
  size' := h'.size'
  janitors slot hslot := (h.janitors slot hslot).trans (h'.janitors slot hslot)
  covers := h.covers

theorem baseClosed (h : Shares r n m m') (slot : Nat) : m.baseClosed slot = m'.baseClosed slot := by
  rw [Store.baseClosed, h.bases, Store.baseClosed]

theorem script (h : Shares r n m m') (slot : Nat) : m.script slot = m'.script slot := by
  rw [Store.script, h.scripts, Store.script]

theorem raise (h : Shares r k m m') (hn : n ≤ m.janitors.size) (hn' : n ≤ m'.janitors.size)
    (hjanitors : ∀ slot < n, k ≤ slot → (m.janitor slot).unasked = (m'.janitor slot).unasked) :
    Shares r n m m' :=
  { h with
    size := hn
    size' := hn'
    janitors := fun slot hslot => (Nat.lt_or_ge slot k).elim (h.janitors slot) (hjanitors slot hslot) }

theorem openCursors (h : Shares r n m m') (hslot : slot < n) :
    (m.janitor slot).openCursors = (m'.janitor slot).openCursors :=
  (congrArg JanitorState.openCursors (h.janitors slot hslot) :)

theorem closed (h : Shares r n m m') (hslot : slot < n) :
    (m.janitor slot).closed = (m'.janitor slot).closed :=
  (congrArg JanitorState.closed (h.janitors slot hslot) :)

theorem released (h : Shares r n m m') (hslot : slot < n) :
    (m.janitor slot).released = (m'.janitor slot).released :=
  (congrArg JanitorState.released (h.janitors slot hslot) :)

theorem notes (h : Shares r n m m') (hm : m.Notes m₁) (hm' : m'.Notes m₁') : Shares r n m₁ m₁' where
  cells := (hm.cells.trans h.cells).trans hm'.cells.symm
  bases := (hm.bases.trans h.bases).trans hm'.bases.symm
  scripts := (hm.scripts.trans h.scripts).trans hm'.scripts.symm
  ids := (hm.ids.trans h.ids).trans hm'.ids.symm
  size := hm.janitors.symm ▸ h.size
  size' := hm'.janitors.symm ▸ h.size'
  janitors slot hslot := by
    rw [janitor, hm.janitors, janitor, hm'.janitors]
    exact h.janitors slot hslot
  covers := hm.covers h.covers

theorem change {f f' : JanitorState → JanitorState} (h : Shares r n m m')
    (hf : ∀ t t' : JanitorState, t.unasked = t'.unasked → (f t).unasked = (f' t').unasked) :
    Shares r n (m.change slot f) (m'.change slot f') :=
  { h with
    size := size_change.symm ▸ h.size
    size' := size_change.symm ▸ h.size'
    covers := h.covers.change _ _
    janitors := by
      intro other hother
      by_cases hne : slot = other
      · subst hne
        rw [janitor_change_self (hother.trans_le h.size), janitor_change_self (hother.trans_le h.size')]
        exact hf _ _ (h.janitors slot hother)
      · rw [janitor_change_of_ne hne, janitor_change_of_ne hne]
        exact h.janitors other hother }

theorem changed {f : JanitorState → JanitorState} (h : Shares r n m m')
    (hf : slot < n → ∀ t, (f t).unasked = t.unasked) : Shares r n (m.change slot f) m' :=
  { h with
    size := size_change.symm ▸ h.size
    covers := h.covers.change _ _
    janitors := by
      intro other hother
      by_cases hne : slot = other
      · subst hne
        rw [janitor_change_self (hother.trans_le h.size), hf hother]
        exact h.janitors slot hother
      · rw [janitor_change_of_ne hne]
        exact h.janitors other hother }

theorem changeAbove (h : Shares r slot m m') (f : JanitorState → JanitorState) :
    Shares r slot (m.change slot f) m' :=
  h.changed fun hlt => absurd hlt (Nat.lt_irrefl _)

theorem asked (h : Shares r n m m') (slot : Nat) :
    Shares r n (m.change slot fun t => { t with demands := t.demands + 1 }) m' :=
  h.changed fun _ _ => rfl

theorem feeds {s s' : Feeds α} (h : Shares r n m m') (hs : s.SameCells s')
    (hframe : Frame k m { m with feeds := s }) :
    Shares r n { m with feeds := s } { m' with feeds := s' } :=
  { h with cells := hs, covers := hframe.covers h.covers }

end Shares

theorem Notes.pending (h : m.Notes m₁) : m₁.pending = m.pending := by
  have hjanitor : m₁.janitor = m.janitor := funext fun slot => by rw [janitor, h.janitors, janitor]
  have hopen : m₁.feeds.isOpen = m.feeds.isOpen :=
    funext (Feeds.SameCells.isOpen h.cells)
  rw [Store.pending, Store.pending, hjanitor, hopen, h.janitors, h.cells]

theorem Notes.refl (m : Store α) : m.Notes m := ⟨rfl, rfl, rfl, rfl, rfl⟩

theorem Notes.trans {m m' m'' : Store α} (h : m.Notes m') (h' : m'.Notes m'') : m.Notes m'' where
  cells := h'.cells.trans h.cells
  bases := h'.bases.trans h.bases
  scripts := h'.scripts.trans h.scripts
  ids := h'.ids.trans h.ids
  janitors := h'.janitors.trans h.janitors

theorem Notes.janitor (h : m.Notes m₁) (slot : Nat) : m₁.janitor slot = m.janitor slot := by
  rw [Store.janitor, h.janitors, Store.janitor]

theorem notes_note (e : Event) (m : Store α) : m.Notes ((note e).run m).2 := ⟨rfl, rfl, rfl, rfl, rfl⟩

theorem notes_charge (q : Nat) (f : Statistics → Statistics) (m : Store α) : m.Notes (m.charge q f) :=
  ⟨rfl, rfl, rfl, rfl, rfl⟩

theorem notes_record (report : Report) (provider : ProviderId) (stage : Stage)
    (outcome : Outcome StreamError Unit) (m : Store α) :
    m.Notes ((report.record provider stage outcome).run m).2 := by
  unfold Report.record
  split
  · exact .refl m
  · exact notes_note _ m

theorem pending_closing (h : (m.janitor slot).closed = false) :
    (m.change slot fun t => { t with closed := true }).pending < m.pending := by
  have hflags : m.FlagsMono (m.change slot fun t => { t with closed := true }) :=
    .of_change (fun _ _ => rfl) fun _ => id
  exact hflags.pending_lt (.closed slot h (by rw [janitor_change_self (lt_of_closed_eq_false h)]))

theorem pending_releasing (h : (m.janitor slot).released = false) :
    (m.change slot fun t => { t with released := true }).pending < m.pending := by
  have hflags : m.FlagsMono (m.change slot fun t => { t with released := true }) :=
    .of_change (fun _ => id) fun _ _ => rfl
  exact hflags.pending_lt (.released slot h (by rw [janitor_change_self (lt_of_released_eq_false h)]))

theorem pending_shutting {b : Buffer α} (h : m.feeds.isOpen feed) :
    ({ m with feeds := m.feeds.setBuffer feed (some b.close) } : Store α).pending < m.pending := by
  have hadvances : m.Advances { m with feeds := m.feeds.setBuffer feed (some b.close) } :=
    .of_janitors rfl (.setBuffer rfl)
  have hshut : (m.feeds.setBuffer feed (some b.close)).isOpen feed = false := by
    rw [Feeds.isOpen, Feeds.buffer?_setBuffer (Feeds.lt_of_isOpen h)]
    rfl
  exact hadvances.flagsMono.pending_lt (.shut feed h hshut)

/-- The same, with at most `a` and `b` closings and releases pending. -/
structure Paired (r : Roster) (n a b : Nat) (m m' : Store α) : Prop extends Shares r n m m' where
  left : m.pending ≤ a
  right : m'.pending ≤ b

namespace Paired

theorem more (h : Paired r n a b m m') : Paired r n (a + 1) (b + 1) m m' :=
  ⟨h.toShares, Nat.le_succ_of_le h.left, Nat.le_succ_of_le h.right⟩

theorem symm (h : Paired r n a b m m') : Paired r n b a m' m := ⟨h.toShares.symm, h.right, h.left⟩

theorem asked (h : Paired r n a b m m') (slot : Nat) :
    Paired r n a b (m.change slot fun t => { t with demands := t.demands + 1 }) m' := by
  have hflags : m.FlagsMono (m.change slot fun t => { t with demands := t.demands + 1 }) :=
    .of_change (fun _ => id) fun _ => id
  exact ⟨h.toShares.asked slot, hflags.pending_le.trans h.left, h.right⟩

theorem notes (h : Paired r n a b m m') (hm : m.Notes m₁) (hm' : m'.Notes m₁') :
    Paired r n a b m₁ m₁' :=
  ⟨h.toShares.notes hm hm', hm.pending.trans_le h.left, hm'.pending.trans_le h.right⟩

theorem change {f : JanitorState → JanitorState} (h : Paired r n a b m m')
    (hf : ∀ t t' : JanitorState, t.unasked = t'.unasked → (f t).unasked = (f t').unasked)
    (hc : ∀ t, t.closed → (f t).closed) (hr : ∀ t, t.released → (f t).released) :
    Paired r n a b (m.change slot f) (m'.change slot f) :=
  ⟨h.toShares.change hf, (FlagsMono.of_change hc hr).pending_le.trans h.left,
    (FlagsMono.of_change hc hr).pending_le.trans h.right⟩

theorem feeds {s s' : Feeds α} (h : Paired r n a b m m') (hs : s.SameCells s')
    (hframe : Frame k m { m with feeds := s }) :
    Paired r n a b { m with feeds := s } { m' with feeds := s' } := by
  have hnoneOpened' : m'.feeds.NoneOpened s' := by
    refine ⟨?_, fun feed hopen => ?_⟩
    · rw [← hs, ← h.cells]
      exact hframe.feeds.size
    · rw [← h.cells.isOpen]
      rw [← hs.isOpen] at hopen
      exact hframe.feeds.isOpen feed hopen
  have hadvances : m.Advances { m with feeds := s } := .of_janitors rfl hframe.feeds
  have hadvances' : m'.Advances { m' with feeds := s' } := .of_janitors rfl hnoneOpened'
  exact ⟨h.toShares.feeds hs hframe, hadvances.pending_le.trans h.left,
    hadvances'.pending_le.trans h.right⟩

theorem count (h : Paired r n a b m m') (feed : Nat) (f : Tally → Tally) :
    Paired r n a b { m with feeds := m.feeds.count feed f } { m' with feeds := m'.feeds.count feed f } :=
  h.feeds (h.cells.modify feed _) (Transfer.of_feeds (r := r) (n := n) (.count f) 0).toFrame

theorem setSource (h : Paired r n a b m m') (hshut : m.feeds.isOpen feed = false)
    (source : Option (Source α)) :
    Paired r n a b { m with feeds := m.feeds.setSource feed source }
      { m' with feeds := m'.feeds.setSource feed source } :=
  h.feeds (h.cells.modify feed _) (transfer_setSource (r := r) (n := n) hshut source 0).toFrame

theorem closing (h : Paired r n (a + 1) (b + 1) m m') (hslot : slot < n)
    (hopen : (m.janitor slot).closed = false) :
    Paired r n a b (m.change slot fun t => { t with closed := true })
      (m'.change slot fun t => { t with closed := true }) where
  toShares := h.toShares.change fun _ _ heq => congrArg (fun t => { t with closed := true }) heq
  left := Nat.le_of_lt_succ ((pending_closing hopen).trans_le h.left)
  right := Nat.le_of_lt_succ ((pending_closing ((h.closed hslot).symm.trans hopen)).trans_le h.right)

theorem releasing (h : Paired r n (a + 1) (b + 1) m m') (hslot : slot < n)
    (hopen : (m.janitor slot).released = false) :
    Paired r n a b (m.change slot fun t => { t with released := true })
      (m'.change slot fun t => { t with released := true }) where
  toShares := h.toShares.change fun _ _ heq => congrArg (fun t => { t with released := true }) heq
  left := Nat.le_of_lt_succ ((pending_releasing hopen).trans_le h.left)
  right := Nat.le_of_lt_succ
    ((pending_releasing ((h.released hslot).symm.trans hopen)).trans_le h.right)

theorem shutting {x : Buffer α} (h : Paired r n (a + 1) (b + 1) m m') (hopen : m.feeds.isOpen feed) :
    Paired r n a b { m with feeds := m.feeds.setBuffer feed (some x.close) }
      { m' with feeds := m'.feeds.setBuffer feed (some x.close) } where
  toShares := { h.toShares with
    cells := h.cells.setBuffer feed _
    covers := h.covers.of_same (fun other c hc => by
      rw [Feeds.lent_shut rfl] at hc
      split at hc
      · cases hc
      · exact hc) fun _ => rfl }
  left := Nat.le_of_lt_succ ((pending_shutting hopen).trans_le h.left)
  right := Nat.le_of_lt_succ ((pending_shutting ((h.cells.isOpen feed).symm.trans hopen)).trans_le
    h.right)

end Paired

section primitives

theorem along_notes {f g : Call α Unit} (hf : ∀ m : Store α, m.Notes (f.run m).2)
    (hg : ∀ m : Store α, m.Notes (g.run m).2) :
    f.Along (Paired r n a b) g :=
  fun m m' h => ⟨rfl, h.notes (hf m) (hg m')⟩

theorem along_note (e : Event) : (note (α := α) e).Along (Paired r n a b) (note e) :=
  along_notes (notes_note e) (notes_note e)

theorem along_onStatistics (q : Nat) (f : Statistics → Statistics) :
    (onStatistics (α := α) q f).Along (Paired r n a b) (onStatistics q f) :=
  along_notes (notes_charge q f) (notes_charge q f)

theorem along_onScript (slot : Nat) {f : ScriptState → ScriptState} (hf : ∀ t, (f t).outer = t.outer) :
    (onScript (α := α) slot f).Along (Paired r n a b) (onScript slot f) :=
  fun m _ h => ⟨rfl, { h with
    scripts := congrArg (fun scripts => scripts.modify slot f) h.scripts
    covers := h.covers.of_same (fun _ _ => id) (outer_onScript slot hf m) }⟩

theorem along_closeBase (slot : Nat) :
    (closeBase (α := α) slot).Along (Paired r n a b) (closeBase slot) :=
  fun _ _ h => ⟨rfl, { h with
    bases := congrArg (fun bases => bases.setIfInBounds slot true) h.bases
    covers := h.covers.of_same (fun _ _ => id) fun _ => rfl }⟩

theorem along_newProviderId : (newProviderId (α := α)).Along (Paired r n a b) newProviderId :=
  fun _ _ h => ⟨congrArg ProviderId.mk h.ids, { h with
    ids := congrArg (· + 1) h.ids
    covers := h.covers.of_same (fun _ _ => id) fun _ => rfl }⟩

theorem along_onJanitor {f : JanitorState → JanitorState}
    (hf : ∀ t t' : JanitorState, t.unasked = t'.unasked → (f t).unasked = (f t').unasked)
    (hc : ∀ t, t.closed → (f t).closed) (hr : ∀ t, t.released → (f t).released) :
    (onJanitor (α := α) slot f).Along (Paired r n a b) (onJanitor slot f) :=
  fun _ _ h => ⟨rfl, h.change hf hc hr⟩

end primitives
end Store

theorem JanitorState.unasked_countDown {t t' : JanitorState} (h : t.unasked = t'.unasked) :
    t.countDown.unasked = t'.countDown.unasked :=
  congrArg JanitorState.countDown h

end Replay
