import Replay.Opening
import Replay.Proofs.Accounts.Lent

/-!
Exactness of `open_cursors` and of the statistics during a call. A janitor counts the unreleased layers
of cursors that are lent to feeds or held by callers; statistics add up what their janitors have open. A
call is specified by the cursors it takes and returns (`Transfer`), whatever else is held, so that
specifications compose. A delegate is older than its janitor and has lower slots, so counts are exact up
to a slot, with a `Ledger` for the slots above.
-/
namespace Replay

open Store

variable {α β γ : Type}

/-- The act does not call back into a managed provider. -/
def Act.NonReentrant : Act → Prop
  | .outer _ => False
  | _ => True

structure Script.NonReentrant (s : Script) : Prop where
  onOpen : ∀ call, (s.onOpen call).NonReentrant
  afterOpen : ∀ call, (s.afterOpen call).NonReentrant
  onClose : ∀ call, (s.onClose call).NonReentrant
  afterClose : ∀ call, (s.afterClose call).NonReentrant
  onRelease : ∀ call, (s.onRelease call).NonReentrant
  afterRelease : ∀ call, (s.afterRelease call).NonReentrant
  cursorRelease : ∀ call, ∀ act ∈ s.cursorRelease call, act.NonReentrant

/-- The script calls back only from `open_cursor`. -/
structure Script.ReentrantOnOpen (s : Script) : Prop where
  onClose : ∀ call, (s.onClose call).NonReentrant
  afterClose : ∀ call, (s.afterClose call).NonReentrant
  onRelease : ∀ call, (s.onRelease call).NonReentrant
  afterRelease : ∀ call, (s.afterRelease call).NonReentrant
  cursorRelease : ∀ call, ∀ act ∈ s.cursorRelease call, act.NonReentrant

theorem Script.NonReentrant.reentrantOnOpen {s : Script} (h : s.NonReentrant) : s.ReentrantOnOpen :=
  ⟨h.onClose, h.afterClose, h.onRelease, h.afterRelease, h.cursorRelease⟩

/-- The hook returns a cursor with exactly one managed layer of its janitor, or none. -/
def Hook.Wraps : Hook → Prop
  | .raw => False
  | .doubled => False
  | _ => True

/-- Hooks are plain and no scripted layer calls back. -/
def Provider.Inert : Provider → Prop
  | base .. => True
  | managed _ _ hook inner => hook = .plain ∧ inner.Inert
  | scripted _ script inner => script.NonReentrant ∧ inner.Inert

/-- What never changes once it is made: the cursor that the source of a feed was built on, and the
statistics of a janitor. -/
structure Roster where
  chains : List (Option Cursor) := []
  statistics : List Nat := []

/-- All managed layers belong to janitors with slots below `n`. -/
def Cursor.Below (n : Nat) : Cursor → Prop
  | plain .. => True
  | managed janitor _ inner => janitor.slot < n ∧ inner.Below n
  | watched _ _ inner => inner.Below n

/-- All layers belong to janitors with slots below `n`, each above those inside it, and so do those of
the cursors that the feed reads from. -/
def Provider.Under (r : Roster) (n : Nat) : Provider → Prop
  | base _ _ feed => ∃ chain, r.chains[feed]? = some chain ∧ ∀ c ∈ chain, c.Below n
  | managed slot statistics hook inner =>
    slot < n ∧ r.statistics[slot]? = some statistics ∧ hook.Wraps ∧ inner.Under r slot
  | scripted _ script inner => script.ReentrantOnOpen ∧ inner.Under r n

structure Janitor.Under (r : Roster) (n : Nat) (j : Janitor) : Prop where
  slot : j.slot < n
  statistics : r.statistics[j.slot]? = some j.statistics
  delegate : j.delegate.Under r j.slot

def Cursor.Under (r : Roster) (n : Nat) : Cursor → Prop
  | plain .. => True
  | managed janitor _ inner => janitor.Under r n ∧ inner.Under r janitor.slot
  | watched _ act inner => act.NonReentrant ∧ inner.Under r n

/-- `d` may result from `c` by releasing layers. -/
structure Cursor.ReleasedFrom (r : Roster) (n : Nat) (c d : Cursor) : Prop where
  under : d.Under r n
  depth : d.depth = c.depth

namespace Roster

structure Grows (r r' : Roster) : Prop where
  chains : r.chains <+: r'.chains
  statistics : r.statistics <+: r'.statistics

/-- The source of a feed reads only from cursors of older janitors. -/
def Sorted (r : Roster) : Prop :=
  ∀ (feed : Nat) (c : Cursor), r.chains[feed]? = some (some c) → ∃ n, c.Under r n

/-- Lent cursors, and the janitors that scripted layers may call back, are on the roster. -/
structure Covers (r : Roster) (m : Store α) : Prop where
  lent : ∀ feed c, m.feeds.lent feed = some c → r.chains[feed]? = some (some c)
  outer : ∀ slot j, (m.script slot).outer = some j → j.Under r r.statistics.length

theorem Covers.of_same {r : Roster} {m m' : Store α} (hm : r.Covers m)
    (hlent : ∀ feed c, m'.feeds.lent feed = some c → m.feeds.lent feed = some c)
    (houter : ∀ slot, (m'.script slot).outer = (m.script slot).outer) : r.Covers m' where
  lent feed c hc := hm.lent feed c (hlent feed c hc)
  outer slot j hj := hm.outer slot j (houter slot ▸ hj)

theorem Covers.change {r : Roster} {m : Store α} (hm : r.Covers m) (slot : Nat)
    (f : JanitorState → JanitorState) : r.Covers (m.change slot f) :=
  hm.of_same (fun _ _ => id) fun _ => rfl

end Roster

section Under

variable {r r' : Roster} {n k : Nat}

theorem Cursor.Below.mono {c : Cursor} (h : c.Below n) (hle : n ≤ k) : c.Below k := by
  induction c with
  | plain feed provider head => trivial
  | managed janitor released inner ih => exact ⟨h.1.trans_le hle, ih h.2⟩
  | watched slot act inner ih => exact ih h

theorem Provider.Under.mono {p : Provider} (h : p.Under r n) (hle : n ≤ k) : p.Under r k := by
  induction p with
  | base slot id feed =>
    obtain ⟨chain, hchain, hbelow⟩ := h
    exact ⟨chain, hchain, fun c hc => (hbelow c hc).mono hle⟩
  | managed slot statistics hook inner => exact ⟨h.1.trans_le hle, h.2⟩
  | scripted slot script inner ih => exact ⟨h.1, ih h.2⟩

theorem Provider.Under.grow {p : Provider} (h : p.Under r n) (hr : r.Grows r') :
    p.Under r' n := by
  induction p generalizing n with
  | base slot id feed =>
    obtain ⟨chain, hchain, hbelow⟩ := h
    exact ⟨chain, getElem?_mono hr.chains hchain, hbelow⟩
  | managed slot statistics hook inner ih =>
    exact ⟨h.1, getElem?_mono hr.statistics h.2.1, h.2.2.1, ih h.2.2.2⟩
  | scripted slot script inner ih => exact ⟨h.1, ih h.2⟩

theorem Provider.under_managed {slot statistics : Nat} {hook : Hook} {inner : Provider} :
    (Provider.managed slot statistics hook inner).Under r n ↔
      hook.Wraps ∧ (⟨slot, statistics, inner⟩ : Janitor).Under r n :=
  ⟨fun ⟨hslot, hstatistics, hhook, hinner⟩ => ⟨hhook, hslot, hstatistics, hinner⟩,
    fun ⟨hhook, hslot, hstatistics, hinner⟩ => ⟨hslot, hstatistics, hhook, hinner⟩⟩

namespace Janitor

variable {j : Janitor}

theorem Under.mono (h : j.Under r n) (hle : n ≤ k) : j.Under r k :=
  ⟨h.slot.trans_le hle, h.statistics, h.delegate⟩

theorem Under.least (h : j.Under r n) : j.Under r (j.slot + 1) :=
  ⟨Nat.lt_succ_self _, h.statistics, h.delegate⟩

theorem Under.grow (h : j.Under r n) (hr : r.Grows r') : j.Under r' n :=
  ⟨h.slot, getElem?_mono hr.statistics h.statistics, h.delegate.grow hr⟩

theorem one_eq_zero {slot : Nat} (h : slot ≠ j.slot) : j.one slot = 0 := if_neg h

theorem one_self : j.one j.slot = 1 := if_pos rfl

end Janitor

namespace Cursor.Under

variable {c d : Cursor}

theorem mono (h : c.Under r n) (hle : n ≤ k) : c.Under r k := by
  induction c with
  | plain feed provider head => trivial
  | managed janitor released inner => exact ⟨h.1.mono hle, h.2⟩
  | watched slot act inner ih => exact ⟨h.1, ih h.2⟩

theorem grow (h : c.Under r n) (hr : r.Grows r') : c.Under r' n := by
  induction c generalizing n with
  | plain feed provider head => trivial
  | managed janitor released inner ih => exact ⟨h.1.grow hr, ih h.2⟩
  | watched slot act inner ih => exact ⟨h.1, ih h.2⟩

theorem below (h : c.Under r n) : c.Below n := by
  induction c generalizing n with
  | plain feed provider head => trivial
  | managed janitor released inner ih => exact ⟨h.1.slot, (ih h.2).mono h.1.slot.le⟩
  | watched slot act inner ih => exact ih h.2

theorem lower (h : c.Under r n) (hc : c.Below k) : c.Under r k := by
  induction c with
  | plain feed provider head => trivial
  | managed janitor released inner => exact ⟨⟨hc.1, h.1.statistics, h.1.delegate⟩, h.2⟩
  | watched slot act inner ih => exact ⟨h.1, ih h.2 hc⟩

theorem of_bare (h : c.Under r n) (hd : d.bare = c.bare) : d.Under r n := by
  induction c generalizing d n with
  | plain feed provider head =>
    cases d with
    | plain => trivial
    | managed => cases hd
    | watched => cases hd
  | managed janitor released inner ih =>
    cases d with
    | plain => cases hd
    | managed janitor' released' inner' =>
      simp only [bare, managed.injEq] at hd
      obtain ⟨rfl, -, hinner⟩ := hd
      exact ⟨h.1, ih h.2 hinner⟩
    | watched => cases hd
  | watched slot act inner ih =>
    cases d with
    | plain => cases hd
    | managed => cases hd
    | watched slot' act' inner' =>
      simp only [bare, watched.injEq] at hd
      obtain ⟨-, rfl, hinner⟩ := hd
      exact ⟨h.1, ih h.2 hinner⟩

end Cursor.Under

theorem Cursor.Below.counted_eq_zero {c : Cursor} (h : c.Below n) {slot : Nat} (hle : n ≤ slot) :
    c.counted slot = 0 := by
  induction c with
  | plain feed provider head => rfl
  | managed janitor released inner ih =>
    have hne : slot ≠ janitor.slot := Nat.ne_of_gt (h.1.trans_le hle)
    rw [counted, Pi.add_apply, ih h.2, zero_add]
    cases released with
    | true => rfl
    | false => exact Janitor.one_eq_zero hne
  | watched slot act inner ih => exact ih h

end Under

def JanitorState.due (t : JanitorState) : Nat := if t.released then 0 else t.openCursors

def JanitorState.live (t : JanitorState) : Nat := if t.closed then 0 else 1

def JanitorState.account (t : JanitorState) : Nat × Bool × Bool × Bool :=
  (t.openCursors, t.clipped, t.closed, t.released)

/-- What is to be added below a slot: the cursors held of each janitor, and the cursors and providers
that higher janitors have open. -/
structure Ledger where
  held : Nat → Nat := 0
  cursors : Nat := 0
  providers : Nat := 0

namespace Ledger

def hold (L : Ledger) (k : Nat → Nat) : Ledger := { L with held := L.held + k }

def owe (L : Ledger) (cursors providers : Nat) : Ledger :=
  { L with cursors := L.cursors + cursors, providers := L.providers + providers }

variable (L : Ledger) (k l : Nat → Nat)

theorem held_hold (slot : Nat) : (L.hold k).held slot = L.held slot + k slot := rfl

theorem hold_owe (cursors providers : Nat) :
    (L.hold k).owe cursors providers = (L.owe cursors providers).hold k := rfl

theorem hold_add : L.hold (k + l) = (L.hold l).hold k := by
  rw [hold, hold, hold, add_assoc, add_comm l k]

theorem hold_zero : L.hold 0 = L := by
  rw [hold, add_zero]

theorem owe_zero : L.owe 0 0 = L := rfl

end Ledger

def Roster.total (r : Roster) (q n : Nat) (f : Nat → Nat) : Nat :=
  ∑ slot ∈ Finset.range n, if r.statistics[slot]? = some q then f slot else 0

theorem Roster.total_succ (r : Roster) (q n : Nat) (f : Nat → Nat) :
    r.total q (n + 1) f = r.total q n f + if r.statistics[n]? = some q then f n else 0 :=
  Finset.sum_range_succ ..

theorem Roster.total_congr (r : Roster) (q n : Nat) {f g : Nat → Nat}
    (h : ∀ slot < n, f slot = g slot) : r.total q n f = r.total q n g := by
  refine Finset.sum_congr rfl fun slot hslot => ?_
  rw [h slot (Finset.mem_range.mp hslot)]

namespace Store

/-- The counters of the first `n` janitors, and the statistics at `q`, are exact for the ledger. -/
structure CountsExact (r : Roster) (q n : Nat) (L : Ledger) (m : Store α) : Prop where
  made : q < m.statistics.size
  open_eq : ∀ slot < n, (m.janitor slot).openCursors = m.feeds.lentCounts slot + L.held slot
  unclipped : ∀ slot < n, (m.janitor slot).clipped = false
  cursors : (m.statisticsAt q).cursors = r.total q n (fun slot => (m.janitor slot).due) + L.cursors
  providers :
    (m.statisticsAt q).providers = r.total q n (fun slot => (m.janitor slot).live) + L.providers
  exact : (m.statisticsAt q).clipped = false

/-- The frame of a call: nothing is added, no further cursor is lent, scripted layers stay bound, and
janitors from `n` on are unchanged. -/
structure Frame (n : Nat) (m m' : Store α) : Prop where
  janitors : m'.janitors.size = m.janitors.size
  statistics : m'.statistics.size = m.statistics.size
  managers : m'.managers = m.managers
  feeds : m.feeds.NoneOpened m'.feeds
  lent : ∀ feed c, m'.feeds.lent feed = some c → m.feeds.lent feed = some c
  outer : ∀ slot, (m'.script slot).outer = (m.script slot).outer
  above : ∀ slot, n ≤ slot → m'.janitor slot = m.janitor slot
  lentAbove : ∀ slot, n ≤ slot → m'.feeds.lentCounts slot = m.feeds.lentCounts slot

/-- A call that starts with the cursors counted by `k` held, and ends with those counted by `k'`. -/
structure Transfer (r : Roster) (n : Nat) (m : Store α) (k : Nat → Nat) (m' : Store α)
    (k' : Nat → Nat) : Prop extends Frame n m m' where
  counts : ∀ slot, n ≤ slot → k' slot = k slot
  countsExact : ∀ q (L : Ledger), CountsExact r q n (L.hold k) m → CountsExact r q n (L.hold k') m'

variable {r : Roster} {q n : Nat} {L : Ledger} {m m' m'' : Store α} {k k' k'' : Nat → Nat}

theorem CountsExact.congr (h : CountsExact r q n L m) (hsize : m'.statistics.size = m.statistics.size)
    (hlent : ∀ slot < n, m'.feeds.lentCounts slot = m.feeds.lentCounts slot)
    (hjanitor : ∀ slot < n, (m'.janitor slot).account = (m.janitor slot).account)
    (hstatistics : m'.statisticsAt q = m.statisticsAt q) : CountsExact r q n L m' := by
  have hparts : ∀ slot < n, (m'.janitor slot).openCursors = (m.janitor slot).openCursors ∧
      (m'.janitor slot).clipped = (m.janitor slot).clipped ∧
      (m'.janitor slot).closed = (m.janitor slot).closed ∧
      (m'.janitor slot).released = (m.janitor slot).released := by
    intro slot hslot
    simpa [JanitorState.account] using hjanitor slot hslot
  refine ⟨hsize ▸ h.made, fun slot hslot => ?_, fun slot hslot => ?_, ?_, ?_, ?_⟩
  · rw [(hparts slot hslot).1, h.open_eq slot hslot, hlent slot hslot]
  · rw [(hparts slot hslot).2.1, h.unclipped slot hslot]
  · rw [hstatistics, h.cursors]
    congr 1
    refine r.total_congr q n fun slot hslot => ?_
    obtain ⟨hopen, -, -, hreleased⟩ := hparts slot hslot
    rw [JanitorState.due, JanitorState.due, hopen, hreleased]
  · rw [hstatistics, h.providers]
    congr 1
    refine r.total_congr q n fun slot hslot => ?_
    rw [JanitorState.live, JanitorState.live, (hparts slot hslot).2.2.1]
  · rw [hstatistics, h.exact]

theorem CountsExact.held (h : CountsExact r q n L m) (held : Nat → Nat)
    (hheld : ∀ slot < n, held slot = L.held slot) : CountsExact r q n { L with held } m :=
  { h with open_eq := fun slot hslot =>
      (h.open_eq slot hslot).trans (congrArg _ (hheld slot hslot).symm) }

/-- The induction over slots: exact up to `n + 1` is exact up to `n` with the entry of `n` in the
ledger. -/
theorem countsExact_succ : CountsExact r q (n + 1) L m ↔
    CountsExact r q n (L.owe (if r.statistics[n]? = some q then (m.janitor n).due else 0)
      (if r.statistics[n]? = some q then (m.janitor n).live else 0)) m ∧
    (m.janitor n).openCursors = m.feeds.lentCounts n + L.held n ∧
    (m.janitor n).clipped = false := by
  constructor
  · intro h
    refine ⟨⟨h.made, fun slot hslot => h.open_eq slot (Nat.lt_succ_of_lt hslot),
      fun slot hslot => h.unclipped slot (Nat.lt_succ_of_lt hslot), ?_, ?_, h.exact⟩,
      h.open_eq n (Nat.lt_succ_self n), h.unclipped n (Nat.lt_succ_self n)⟩
    · rw [h.cursors, r.total_succ, Ledger.owe, add_assoc, add_comm L.cursors]
    · rw [h.providers, r.total_succ, Ledger.owe, add_assoc, add_comm L.providers]
  · rintro ⟨h, hopen, hclipped⟩
    refine ⟨h.made, fun slot hslot => ?_, fun slot hslot => ?_, ?_, ?_, h.exact⟩
    · rcases Nat.lt_succ_iff_lt_or_eq.mp hslot with hslot | rfl
      · exact h.open_eq slot hslot
      · exact hopen
    · rcases Nat.lt_succ_iff_lt_or_eq.mp hslot with hslot | rfl
      · exact h.unclipped slot hslot
      · exact hclipped
    · rw [h.cursors, r.total_succ, Ledger.owe, add_assoc, add_comm L.cursors]
    · rw [h.providers, r.total_succ, Ledger.owe, add_assoc, add_comm L.providers]

namespace Frame

theorem refl (n : Nat) (m : Store α) : Frame n m m where
  janitors := rfl
  statistics := rfl
  managers := rfl
  feeds := .refl _
  lent _ _ := id
  outer _ := rfl
  above _ _ := rfl
  lentAbove _ _ := rfl

theorem trans (h : Frame n m m') (h' : Frame n m' m'') : Frame n m m'' where
  janitors := h'.janitors.trans h.janitors
  statistics := h'.statistics.trans h.statistics
  managers := h'.managers.trans h.managers
  feeds := h.feeds.trans h'.feeds
  lent feed c hc := h.lent feed c (h'.lent feed c hc)
  outer slot := (h'.outer slot).trans (h.outer slot)
  above slot hslot := (h'.above slot hslot).trans (h.above slot hslot)
  lentAbove slot hslot := (h'.lentAbove slot hslot).trans (h.lentAbove slot hslot)

theorem mono {n' : Nat} (h : Frame n m m') (hle : n ≤ n') : Frame n' m m' where
  janitors := h.janitors
  statistics := h.statistics
  managers := h.managers
  feeds := h.feeds
  lent := h.lent
  outer := h.outer
  above slot hslot := h.above slot (hle.trans hslot)
  lentAbove slot hslot := h.lentAbove slot (hle.trans hslot)

theorem of_alike (hjanitors : m'.janitors = m.janitors)
    (hstatistics : m'.statistics.size = m.statistics.size) (hmanagers : m'.managers = m.managers)
    (hfeeds : m.feeds.Alike m'.feeds)
    (houter : ∀ slot, (m'.script slot).outer = (m.script slot).outer) : Frame n m m' where
  janitors := by rw [hjanitors]
  statistics := hstatistics
  managers := hmanagers
  feeds := hfeeds.noneOpened
  lent feed c hc := hfeeds.lent feed ▸ hc
  outer := houter
  above slot _ := by rw [janitor, hjanitors, janitor]
  lentAbove slot _ := by rw [hfeeds.lentCounts]

theorem change {slot : Nat} (hslot : slot < n) (f : JanitorState → JanitorState) :
    Frame n m (m.change slot f) where
  janitors := size_change
  statistics := rfl
  managers := rfl
  feeds := .refl _
  lent _ _ := id
  outer _ := rfl
  above _ hother := janitor_change_of_ne (Nat.ne_of_lt (hslot.trans_le hother))
  lentAbove _ _ := rfl

theorem covers (h : Frame n m m') (hm : r.Covers m) : r.Covers m' := hm.of_same h.lent h.outer

end Frame

namespace Transfer

theorem refl (r : Roster) (n : Nat) (m : Store α) (k : Nat → Nat) : Transfer r n m k m k :=
  ⟨.refl n m, fun _ _ => rfl, fun _ _ => id⟩

theorem trans (h : Transfer r n m k m' k') (h' : Transfer r n m' k' m'' k'') : Transfer r n m k m'' k'' where
  toFrame := h.toFrame.trans h'.toFrame
  counts slot hslot := (h'.counts slot hslot).trans (h.counts slot hslot)
  countsExact q L hL := h'.countsExact q L (h.countsExact q L hL)

theorem hold (h : Transfer r n m k m' k') (l : Nat → Nat) : Transfer r n m (k + l) m' (k' + l) where
  toFrame := h.toFrame
  counts slot hslot := by rw [Pi.add_apply, Pi.add_apply, h.counts slot hslot]
  countsExact q L hL := by
    rw [Ledger.hold_add] at hL ⊢
    exact h.countsExact q (L.hold l) hL

theorem keeps (h : Transfer r n m 0 m' 0) (hL : CountsExact r q n L m) : CountsExact r q n L m' := by
  have hexact := h.countsExact q L
  rw [Ledger.hold_zero] at hexact
  exact hexact hL

theorem succ (h : Transfer r n m k m' k') : Transfer r (n + 1) m k m' k' where
  toFrame := h.toFrame.mono (Nat.le_succ n)
  counts slot hslot := h.counts slot (Nat.le_of_succ_le hslot)
  countsExact q L hL := by
    have hjanitor : m'.janitor n = m.janitor n := h.above n le_rfl
    rw [countsExact_succ, Ledger.hold_owe] at hL ⊢
    obtain ⟨hexact, hopen, hclipped⟩ := hL
    rw [hjanitor]
    refine ⟨h.countsExact q _ hexact, ?_, hclipped⟩
    have hcounts : (L.hold k').held n = (L.hold k).held n :=
      congrArg (L.held n + ·) (h.counts n le_rfl)
    rw [hopen, h.lentAbove n le_rfl, hcounts]

theorem mono {n' : Nat} (h : Transfer r n m k m' k') (hle : n ≤ n') : Transfer r n' m k m' k' := by
  induction n', hle using Nat.le_induction with
  | base => exact h
  | succ n' _ ih => exact ih.succ

theorem of_account (h : Frame n m m')
    (hlent : ∀ slot < n, m'.feeds.lentCounts slot = m.feeds.lentCounts slot)
    (hjanitor : ∀ slot < n, (m'.janitor slot).account = (m.janitor slot).account)
    (hstatistics : m'.statistics = m.statistics) (k : Nat → Nat) : Transfer r n m k m' k where
  toFrame := h
  counts _ _ := rfl
  countsExact q L hL := hL.congr h.statistics hlent hjanitor (by
    rw [statisticsAt, hstatistics, statisticsAt])

theorem of_alike (hjanitors : m'.janitors = m.janitors) (hstatistics : m'.statistics = m.statistics)
    (hmanagers : m'.managers = m.managers) (hfeeds : m.feeds.Alike m'.feeds)
    (houter : ∀ slot, (m'.script slot).outer = (m.script slot).outer) (k : Nat → Nat) :
    Transfer r n m k m' k :=
  .of_account (.of_alike hjanitors (by rw [hstatistics]) hmanagers hfeeds houter)
    (fun slot _ => by rw [hfeeds.lentCounts]) (fun slot _ => by rw [janitor, hjanitors, janitor])
    hstatistics k

theorem of_feeds {s : Feeds α} (h : m.feeds.Alike s) (k : Nat → Nat) :
    Transfer r n m k { m with feeds := s } k := by
  have hjanitors : ({ m with feeds := s } : Store α).janitors = m.janitors := rfl
  exact .of_alike hjanitors rfl rfl h (fun _ => rfl) k

theorem change {slot : Nat} (hslot : slot < n) {f : JanitorState → JanitorState}
    (hf : ∀ t, (f t).account = t.account) (k : Nat → Nat) :
    Transfer r n m k (m.change slot f) k := by
  refine .of_account (.change hslot f) (fun _ _ => rfl) (fun other _ => ?_) rfl k
  by_cases hother : slot = other
  · subst hother
    exact janitor_change_congr hf
  · rw [janitor_change_of_ne hother]

end Transfer

def Call.Transfers (r : Roster) (n : Nat) (k : Nat → Nat) (f : Call α β) (k' : β → Nat → Nat)
    (P : β → Prop) : Prop :=
  ∀ m : Store α, r.Covers m → Transfer r n m k (f.run m).2 (k' (f.run m).1) ∧ P (f.run m).1

def Call.Neutral (r : Roster) (n : Nat) (f : Call α β) : Prop :=
  ∀ m : Store α, r.Covers m → ∀ k, Transfer r n m k (f.run m).2 k

namespace Call

variable {f : Call α β} {g : β → Call α γ} {l : β → Nat → Nat} {l' : γ → Nat → Nat}
  {P : β → Prop} {Q : γ → Prop}

theorem Transfers.pure {x : β} (hl : l x = k) (hP : P x) :
    Call.Transfers r n k (Pure.pure x : Call α β) l P := by
  intro m _
  refine ⟨?_, hP⟩
  rw [run_pure, hl]
  exact .refl r n m k

theorem Transfers.bind (hf : f.Transfers r n k l P) (hg : ∀ x, P x → (g x).Transfers r n (l x) l' Q) :
    (f >>= g).Transfers r n k l' Q := by
  intro m hm
  obtain ⟨htransfer, hP⟩ := hf m hm
  obtain ⟨htransfer', hQ⟩ := hg _ hP _ (htransfer.covers hm)
  exact ⟨htransfer.trans htransfer', hQ⟩

theorem Transfers.hold (hf : f.Transfers r n k l P) (k' : Nat → Nat) :
    f.Transfers r n (k + k') (fun x => l x + k') P :=
  fun m hm => ⟨(hf m hm).1.hold k', (hf m hm).2⟩

theorem Transfers.mono {n' : Nat} (hf : f.Transfers r n k l P) (hle : n ≤ n') : f.Transfers r n' k l P :=
  fun m hm => ⟨(hf m hm).1.mono hle, (hf m hm).2⟩

theorem Neutral.transfers (hf : f.Neutral r n) (k : Nat → Nat) :
    f.Transfers r n k (fun _ => k) fun _ => True :=
  fun m hm => ⟨hf m hm k, trivial⟩

theorem Neutral.mono {n' : Nat} (hf : f.Neutral r n) (hle : n ≤ n') : f.Neutral r n' :=
  fun m hm k => (hf m hm k).mono hle

theorem Neutral.pure (x : β) : Call.Neutral r n (Pure.pure x : Call α β) :=
  fun m _ k => .refl r n m k

theorem Neutral.get : Call.Neutral r n (MonadState.get : Call α (Store α)) :=
  fun m _ k => .refl r n m k

theorem Neutral.bind (hf : f.Neutral r n) (hg : ∀ x, (g x).Neutral r n) :
    (f >>= g).Neutral r n :=
  fun m hm k => (hf m hm k).trans (hg _ _ ((hf m hm k).covers hm) k)

theorem Neutral.then (hf : f.Neutral r n) (hg : ∀ x, (g x).Transfers r n k l' Q) :
    (f >>= g).Transfers r n k l' Q :=
  (hf.transfers k).bind fun x _ => hg x

theorem Neutral.map (g : β → γ) (hf : f.Neutral r n) : (g <$> f).Neutral r n := hf

theorem neutral_of_alike (hjanitors : ∀ m, (f.run m).2.janitors = m.janitors)
    (hstatistics : ∀ m, (f.run m).2.statistics = m.statistics)
    (hmanagers : ∀ m, (f.run m).2.managers = m.managers)
    (hfeeds : ∀ m : Store α, m.feeds.Alike (f.run m).2.feeds)
    (houter : ∀ (m : Store α) slot, ((f.run m).2.script slot).outer = (m.script slot).outer) :
    f.Neutral r n :=
  fun m _ k => .of_alike (hjanitors m) (hstatistics m) (hmanagers m) (hfeeds m) (houter m) k

end Call

section charge

def charge (m : Store α) (q : Nat) (f : Statistics → Statistics) : Store α :=
  { m with statistics := m.statistics.modify q f }

variable {f : Statistics → Statistics} {p : Nat}

theorem run_onStatistics : (onStatistics p f).run m = ((), m.charge p f) := rfl

theorem janitor_charge (slot : Nat) : (m.charge p f).janitor slot = m.janitor slot := rfl

theorem statisticsAt_charge (h : q < m.statistics.size) :
    (m.charge p f).statisticsAt q =
      if p = q then f (m.statisticsAt q) else m.statisticsAt q := by
  simp only [charge, statisticsAt, Array.getD_eq_getD_getElem?, Array.getElem?_modify]
  split
  · rw [Array.getElem?_eq_getElem h]
    rfl
  · rfl

theorem charge_charge {g : Statistics → Statistics} (h : ∀ s, f (g s) = g (f s)) :
    (m.charge q g).charge p f = (m.charge p f).charge q g := by
  have hsame : (m.statistics.modify q g).modify p f = (m.statistics.modify p f).modify q g := by
    refine Array.ext_getElem? fun i => ?_
    simp only [Array.getElem?_modify]
    split
    · split
      · cases m.statistics[i]? with
        | none => rfl
        | some s => exact congrArg some (h s)
      · rfl
    · rfl
  exact congrArg (fun statistics => { m with statistics }) hsame

theorem frame_charge : Frame n m (m.charge p f) :=
  .of_alike rfl (Array.size_modify ..) rfl (.refl _) fun _ => rfl

theorem CountsExact.charge (h : CountsExact r q n L m) (cursors providers : Nat)
    (hcursors : (f (m.statisticsAt q)).cursors + L.cursors = (m.statisticsAt q).cursors + cursors)
    (hproviders :
      (f (m.statisticsAt q)).providers + L.providers = (m.statisticsAt q).providers + providers)
    (hexact : (f (m.statisticsAt q)).clipped = false) :
    CountsExact r q n { L with cursors, providers } (m.charge q f) := by
  have hself : (m.charge q f).statisticsAt q = f (m.statisticsAt q) := by
    rw [statisticsAt_charge h.made, if_pos rfl]
  refine ⟨(Array.size_modify ..).symm ▸ h.made, h.open_eq, h.unclipped, ?_, ?_, ?_⟩
  · have hbefore := h.cursors
    rw [hself]
    change _ = r.total q n (fun slot => (m.janitor slot).due) + cursors
    omega
  · have hbefore := h.providers
    rw [hself]
    change _ = r.total q n (fun slot => (m.janitor slot).live) + providers
    omega
  · rw [hself, hexact]

theorem CountsExact.charge_of_ne (h : CountsExact r q n L m) (hne : p ≠ q) :
    CountsExact r q n L (m.charge p f) := by
  refine h.congr (Array.size_modify ..) (fun _ _ => rfl) (fun _ _ => rfl) ?_
  rw [statisticsAt_charge h.made, if_neg hne]

theorem CountsExact.closeCursors {count : Nat}
    (h : CountsExact r q n (L.owe (if p = q then count else 0) 0) m) :
    CountsExact r q n L (m.charge p (·.closeCursors count)) := by
  by_cases hp : p = q
  · subst hp
    rw [if_pos rfl] at h
    have hcursors : _ = _ + (L.cursors + count) := h.cursors
    refine h.charge L.cursors L.providers ?_ rfl ?_
    · simp only [Statistics.closeCursors, Ledger.owe]
      omega
    · simp only [Statistics.closeCursors, h.exact, Bool.false_or, decide_eq_false_iff_not]
      omega
  · rw [if_neg hp] at h
    exact h.charge_of_ne hp

theorem CountsExact.closeProvider (h : CountsExact r q n (L.owe 0 (if p = q then 1 else 0)) m) :
    CountsExact r q n L (m.charge p (·.closeProvider)) := by
  by_cases hp : p = q
  · subst hp
    rw [if_pos rfl] at h
    have hproviders : _ = _ + (L.providers + 1) := h.providers
    refine h.charge L.cursors L.providers rfl ?_ ?_
    · simp only [Statistics.closeProvider, Ledger.owe]
      omega
    · simp only [Statistics.closeProvider, h.exact, Bool.false_or, beq_eq_false_iff_ne]
      omega
  · rw [if_neg hp] at h
    exact h.charge_of_ne hp

theorem CountsExact.openCursor (h : CountsExact r q n L m) :
    CountsExact r q n (L.owe (if p = q then 1 else 0) 0) (m.charge p (·.openCursor)) := by
  by_cases hp : p = q
  · subst hp
    rw [if_pos rfl]
    exact h.charge (L.cursors + 1) L.providers (by simp only [Statistics.openCursor]; omega) rfl
      h.exact
  · rw [if_neg hp]
    exact h.charge_of_ne hp

theorem CountsExact.openProvider (h : CountsExact r q n L m) :
    CountsExact r q n (L.owe 0 (if p = q then 1 else 0)) (m.charge p (·.openProvider)) := by
  by_cases hp : p = q
  · subst hp
    rw [if_pos rfl]
    exact h.charge L.cursors (L.providers + 1) rfl (by simp only [Statistics.openProvider]; omega)
      h.exact
  · rw [if_neg hp]
    exact h.charge_of_ne hp

end charge

end Store
end Replay
