import Replay.Proofs.Janitor.StoreOps
import Replay.Proofs.Managing.Isolation
import Replay.Proofs.Managing.Listing

/-!
The effect of completing a context. Each provider listed under it is released in turn; if their
delegates are isolated, no other provider is affected. The statistics drop by the listed providers that
were not closed, and by the open cursors of those that were not released.
-/
namespace Replay

open Store

variable {α : Type}

namespace Statistics

/-- The statistics reduced by `providers` and `cursors`, not below zero. -/
def less (s : Statistics) (providers cursors : Nat) : Statistics where
  providers := s.providers - providers
  cursors := s.cursors - cursors
  clipped := s.clipped || decide (s.providers < providers) || decide (s.cursors < cursors)

theorem less_zero (s : Statistics) : s.less 0 0 = s := by
  simp [less]

theorem closeProvider_eq (s : Statistics) : s.closeProvider = s.less 1 0 := by
  simp [less, closeProvider, beq_eq_decide]

theorem closeCursors_eq (s : Statistics) (count : Nat) : s.closeCursors count = s.less 0 count := by
  simp [less, closeCursors]

theorem less_less (s : Statistics) (providers cursors providers' cursors' : Nat) :
    (s.less providers cursors).less providers' cursors' =
      s.less (providers + providers') (cursors + cursors') := by
  have hshort : ∀ a b c : Nat, (decide (a < b) || decide (a - b < c)) = decide (a < b + c) := by
    intro a b c
    rw [← Bool.decide_or, decide_eq_decide]
    omega
  have hclipped : ((s.less providers cursors).clipped || decide (s.providers - providers < providers') ||
      decide (s.cursors - cursors < cursors')) =
        (s.less (providers + providers') (cursors + cursors')).clipped := by
    simp only [less, ← hshort]
    ac_rfl
  simp only [less, mk.injEq, Nat.sub_sub, true_and]
  exact hclipped

theorem eq_add_of_less {s : Statistics} {providers cursors : Nat}
    (h : (s.less providers cursors).clipped = false) :
    s.providers = (s.less providers cursors).providers + providers ∧
      s.cursors = (s.less providers cursors).cursors + cursors := by
  simp only [less, Bool.or_eq_false_iff, decide_eq_false_iff_not, Nat.not_lt] at h
  exact ⟨(Nat.sub_add_cancel h.1.2).symm, (Nat.sub_add_cancel h.2).symm⟩

end Statistics

namespace JanitorState

def mark (t : JanitorState) : Ending → JanitorState
  | .close => { t with closed := true }
  | .release => { t with released := true }

/-- The state of a released janitor. -/
def ended (t : JanitorState) : JanitorState := (t.mark .release).mark .close

variable {t : JanitorState}

theorem mark_of_past {ending : Ending} (h : t.past ending) : t.mark ending = t := by
  cases t
  cases ending with
  | close =>
    cases h
    rfl
  | release =>
    cases h
    rfl

theorem past_mark {kind : Ending} (h : t.past kind) (ending : Ending) : (t.mark ending).past kind := by
  cases ending with
  | close =>
    cases kind with
    | close => rfl
    | release => exact h
  | release =>
    cases kind with
    | close => exact h
    | release => rfl

theorem retired_mark (t : JanitorState) (ending : Ending) : (t.mark ending).retired = t.retired := by
  cases ending with
  | close => rfl
  | release => rfl

theorem untallied_mark (t : JanitorState) (ending : Ending) :
    (t.mark ending).untallied = t.untallied.mark ending := by
  cases ending with
  | close => rfl
  | release => rfl

theorem ended_of_past (hclosed : t.past .close) (hreleased : t.past .release) : t.ended = t := by
  rw [ended, mark_of_past hreleased, mark_of_past hclosed]

theorem live_of_closed (h : t.closed) : t.live = 0 := if_pos h

theorem due_of_released (h : t.released) : t.due = 0 := if_pos h

end JanitorState

/-- `f` applied at the index `i` only. -/
def only {β : Type} (i : Nat) (f : β → β) (k : Nat) (x : β) : β := if k = i then f x else x

theorem only_self {β : Type} (i : Nat) (f : β → β) (x : β) : only i f i x = f x := if_pos rfl

theorem only_of_ne {β : Type} {i k : Nat} (h : k ≠ i) (f : β → β) (x : β) : only i f k x = x := if_neg h

theorem only_only {β : Type} (i : Nat) (f g : β → β) (k : Nat) (x : β) :
    only i g k (only i f k x) = only i (fun x => g (f x)) k x := by
  by_cases hk : k = i
  · rw [hk, only_self, only_self, only_self]
  · rw [only_of_ne hk, only_of_ne hk, only_of_ne hk]

namespace Store

variable {m m' : Store α} {slot : Nat} {g g' : Nat → JanitorState → JanitorState}
  {below : Nat → Prop} {f f' : Nat → Statistics → Statistics}

theorem TeardownEffect.congr (h : TeardownEffect below g f m m')
    (hg : ∀ slot, g' slot (m.janitor slot).untallied = g slot (m.janitor slot).untallied)
    (hf : ∀ q, f' q (m.statisticsAt q) = f q (m.statisticsAt q)) : TeardownEffect below g' f' m m' :=
  { h with
    janitor := fun slot => (h.janitor slot).trans (hg slot).symm
    statistics := fun q => (h.statistics q).trans (hf q).symm }

theorem janitor_mark (m : Store α) (slot : Nat) (ending : Ending) (other : Nat) :
    (m.change slot (·.mark ending)).janitor other = only slot (·.mark ending) other (m.janitor other) := by
  by_cases hne : slot = other
  · rw [hne, only_self]
    refine janitor_change_of_void (?_ : (·.mark ending) JanitorState.void = .void)
    cases ending with
    | close => rfl
    | release => rfl
  · rw [janitor_change_of_ne hne, only_of_ne (Ne.symm hne)]

theorem teardownEffect_mark (ending : Ending) :
    TeardownEffect below (only slot (·.mark ending)) (fun _ s => s) m (m.change slot (·.mark ending)) := by
  have hmono : m.TeardownMono (m.change slot (·.mark ending)) := by
    refine ⟨fun other kind h => ?past, fun other h => ?retired, fun _ => rfl, fun _ _ => le_rfl,
      fun _ _ => id⟩
    case past =>
      rw [janitor_mark, only]
      split
      · exact JanitorState.past_mark h ending
      · exact h
    case retired =>
      rw [janitor_mark, only]
      split
      · exact ((m.janitor other).retired_mark ending).trans h
      · exact h
  refine ⟨hmono, fun _ _ => rfl, size_change, fun other => ?_, rfl, fun _ => rfl⟩
  rw [janitor_mark, only, only]
  split
  · exact (m.janitor other).untallied_mark ending
  · rfl

theorem teardownEffect_charge {q : Nat} (hq : q < m.statistics.size) (count : Statistics → Statistics) :
    TeardownEffect below (fun _ t => t) (only q count) m (m.charge q count) := by
  have hmono : m.TeardownMono (m.charge q count) := .of_lent (fun _ => rfl) (fun _ => rfl) fun _ _ => id
  refine ⟨hmono, fun _ _ => rfl, rfl, fun _ => rfl, Array.size_modify .., fun p => ?_⟩
  by_cases hp : p < m.statistics.size
  · rw [statisticsAt_charge hp]
    by_cases hsame : p = q
    · rw [hsame, if_pos rfl, only_self]
    · rw [if_neg (Ne.symm hsame), only_of_ne hsame]
  · have hne : q ≠ p := fun h => hp (h ▸ hq)
    rw [only_of_ne (Ne.symm hne)]
    simp only [charge, statisticsAt, Array.getD_eq_getD_getElem?, Array.getElem?_modify, if_neg hne]

end Store

section demand

variable {m : Store α} {j : Janitor} {below : Nat → Prop}

theorem teardownEffect_closeDelegate (hbase : below j.delegate.baseSlot) (hclosed : (m.janitor j.slot).closed)
    (hreleased : (m.janitor j.slot).released)
    (h : j.delegate.Isolated m j.slot .close) (hq : j.statistics < m.statistics.size) (left : Nat) :
    TeardownEffect below (fun _ t => t) (only j.statistics (·.less 1 0)) m
      ((j.closeDelegate (switches left)).run m).2 := by
  rw [Janitor.closeDelegate_eq]
  have htally : m.Untouched below (m.change j.slot fun t => { t with closings := t.closings + 1 }) :=
    untouched_tally fun _ => rfl
  have hdelegate : Untouched _ below ((j.delegate.close (switches left) none).run
      (m.change j.slot fun t => { t with closings := t.closings + 1 })).2 :=
    untouched_finish hbase (h.teardownMono htally.toTeardownMono) (htally.past j.slot .close hclosed)
      (htally.past j.slot .release hreleased) left
  have huntouched := (htally.trans hdelegate).trans (untouched_record .begun j.id .closeProvider
    ((j.delegate.close (switches left) none).run
      (m.change j.slot fun t => { t with closings := t.closings + 1 })).1 _)
  have hcharged :=
    huntouched.trans (teardownEffect_charge (hq.trans_eq huntouched.made.symm) (·.closeProvider))
  refine (hcharged.trans (untouched_note (.managedProviderClosed j.id) _)).congr (fun _ => rfl) fun q => ?_
  exact congrArg (only j.statistics · q (m.statisticsAt q)) (funext Statistics.closeProvider_eq).symm

theorem teardownEffect_releaseDelegate (hbase : below j.delegate.baseSlot)
    (hclosed : (m.janitor j.slot).closed)
    (hreleased : (m.janitor j.slot).released) (h : j.delegate.Isolated m j.slot .release)
    (hq : j.statistics < m.statistics.size) (report : Report) (left : Nat) :
    TeardownEffect below (fun _ t => t) (only j.statistics (·.less 0 (m.janitor j.slot).openCursors)) m
      ((j.releaseDelegate (switches left) report).run m).2 := by
  rw [Janitor.releaseDelegate_eq]
  have htally : m.Untouched below (m.change j.slot fun t => { t with releasings := t.releasings + 1 }) :=
    untouched_tally fun _ => rfl
  have hdelegate : Untouched _ below ((j.delegate.release (switches left) none).run
      (m.change j.slot fun t => { t with releasings := t.releasings + 1 })).2 :=
    untouched_finish hbase (h.teardownMono htally.toTeardownMono) (htally.past j.slot .close hclosed)
      (htally.past j.slot .release hreleased) left
  have huntouched := (htally.trans hdelegate).trans (untouched_record report j.id .releaseProvider
    ((j.delegate.release (switches left) none).run
      (m.change j.slot fun t => { t with releasings := t.releasings + 1 })).1 _)
  have hopen := congrArg JanitorState.openCursors (huntouched.janitor j.slot)
  have hcharged := fun count =>
    huntouched.trans (teardownEffect_charge (hq.trans_eq huntouched.made.symm) fun s => s.closeCursors count)
  change _ = (m.janitor j.slot).openCursors at hopen
  rw [← hopen]
  refine ((hcharged _).trans (untouched_note _ _)).congr (fun _ => rfl) fun q => ?_
  exact congrArg (only j.statistics · q (m.statisticsAt q)) (funext fun s => s.closeCursors_eq _).symm

theorem teardownEffect_close (hbase : below j.delegate.baseSlot) (hreleased : (m.janitor j.slot).released)
    (h : (m.janitor j.slot).closed = false → j.delegate.Isolated m j.slot .close)
    (hq : j.statistics < m.statistics.size) (left : Nat) :
    TeardownEffect below (only j.slot (·.mark .close))
      (only j.statistics (·.less (m.janitor j.slot).live 0)) m
      (((switches (left + 1)).close j).run m).2 := by
  cases hopen : (m.janitor j.slot).closed with
  | true =>
    rw [run_close_switches _ hopen]
    refine (Untouched.refl m).congr (fun slot => ?_) fun q => ?_
    · by_cases hslot : slot = j.slot
      · rw [hslot, only_self]
        exact JanitorState.mark_of_past (t := (m.janitor j.slot).untallied) hopen
      · exact only_of_ne hslot _ _
    · rw [JanitorState.live_of_closed hopen, funext Statistics.less_zero]
      exact ite_self _
  | false =>
    have hmark : TeardownEffect below (only j.slot (·.mark .close)) (fun _ s => s) m
      (m.change j.slot fun t => { t with closed := true }) := teardownEffect_mark .close
    have hclosed : ((m.change j.slot fun t => { t with closed := true }).janitor j.slot).closed := by
      rw [janitor_change_self (lt_of_closed_eq_false hopen)]
    have hdelegate := teardownEffect_closeDelegate hbase hclosed (hmark.past j.slot .release hreleased)
      ((h hopen).teardownMono hmark.toTeardownMono) (hq.trans_eq hmark.made.symm) left
    have hboth : TeardownEffect below (only j.slot (·.mark .close))
        (only j.statistics (·.less (m.janitor j.slot).live 0)) m _ :=
      (hmark.trans hdelegate).congr (fun _ => rfl) fun q => by
        rw [JanitorState.live, hopen]
        rfl
    change TeardownEffect below _ _ m ((j.close (switches left)).run m).2
    rw [Janitor.run_close_of_open hopen, Call.run_bind, Call.run_bind, Call.run_get]
    dsimp only
    split
    · rw [Call.run_bind, run_release_switches left (hboth.past j.slot .release hreleased)]
      exact hboth
    · exact hboth

theorem teardownEffect_release (hbase : below j.delegate.baseSlot)
    (hopen : (m.janitor j.slot).released = false)
    (h : ∀ ending, (m.janitor j.slot).past ending = false → j.delegate.Isolated m j.slot ending)
    (hq : j.statistics < m.statistics.size) (left : Nat) :
    TeardownEffect below (only j.slot JanitorState.ended)
      (only j.statistics (·.less (m.janitor j.slot).live (m.janitor j.slot).due)) m
      (((switches (left + 2)).release j).run m).2 := by
  change TeardownEffect below _ _ m ((j.release (switches (left + 1))).run m).2
  rw [Janitor.run_release_of_unreleased hopen, Call.run_bind]
  have hmark : TeardownEffect below (only j.slot (·.mark .release)) (fun _ s => s) m
    (m.change j.slot fun t => { t with released := true }) := teardownEffect_mark .release
  generalize (m.change j.slot fun t => { t with released := true }) = m₁ at hmark
  have hfirst := hmark.janitor j.slot
  rw [only_self] at hfirst
  have hclosed : (m₁.janitor j.slot).closed = (m.janitor j.slot).closed :=
    (congrArg JanitorState.closed hfirst :)
  have hclose := teardownEffect_close hbase (congrArg JanitorState.released hfirst :)
    (fun hopen₁ => (h .close (hclosed.symm.trans hopen₁)).teardownMono hmark.toTeardownMono)
    (hq.trans_eq hmark.made.symm) left
  rcases hrun : ((switches (left + 1)).close j).run m₁ with ⟨report, m₂⟩
  rw [hrun] at hclose
  have hsecond := hclose.janitor j.slot
  rw [only_self, hfirst] at hsecond
  have hrelease := teardownEffect_releaseDelegate hbase (congrArg JanitorState.closed hsecond :)
    (congrArg JanitorState.released hsecond :)
    ((h .release hopen).teardownMono (hmark.trans hclose).toTeardownMono)
    (hq.trans_eq (hmark.trans hclose).made.symm) (Report.begun.merge report) (left + 1)
  have hdue : (m₂.janitor j.slot).openCursors = (m.janitor j.slot).due := by
    rw [JanitorState.due, hopen]
    exact (congrArg JanitorState.openCursors hsecond :)
  refine ((hmark.trans hclose).trans hrelease).congr (fun slot => ?_) fun q => ?_
  · exact (only_only j.slot (JanitorState.mark · .release) (JanitorState.mark · .close) slot _).symm
  · rw [only_only, hdue, JanitorState.live, JanitorState.live, hclosed]
    refine congrArg (only j.statistics · q _) (funext fun s => ?_)
    rw [Statistics.less_less, Nat.add_zero, Nat.zero_add]

theorem teardownEffect_demand (hbase : below j.delegate.baseSlot)
    (horder : (m.janitor j.slot).released → (m.janitor j.slot).closed)
    (h : ∀ ending, (m.janitor j.slot).past ending = false → j.delegate.Isolated m j.slot ending)
    (hq : j.statistics < m.statistics.size) {left : Nat} (hleft : 2 ≤ left) :
    TeardownEffect below (only j.slot JanitorState.ended)
      (only j.statistics (·.less (m.janitor j.slot).live (m.janitor j.slot).due)) m
      (((switches left).demand j).run m).2 := by
  have htally : m.Untouched below (m.change j.slot fun t => { t with demands := t.demands + 1 }) :=
    untouched_tally fun _ => rfl
  have hself : ((m.change j.slot fun t => { t with demands := t.demands + 1 }).janitor j.slot).untallied =
    (m.janitor j.slot).untallied := htally.janitor j.slot
  cases hopen : (m.janitor j.slot).released with
  | true =>
    have hclosed := horder hopen
    rw [run_demand_switches _ hopen]
    refine htally.congr (fun slot => ?_) fun q => ?_
    · by_cases hslot : slot = j.slot
      · rw [hslot, only_self]
        exact JanitorState.ended_of_past (t := (m.janitor j.slot).untallied) hclosed hopen
      · exact only_of_ne hslot _ _
    · rw [JanitorState.live_of_closed hclosed, JanitorState.due_of_released hopen,
        funext Statistics.less_zero]
      exact ite_self _
  | false =>
    obtain ⟨left, rfl⟩ := Nat.exists_eq_add_of_le' hleft
    have hpast : ∀ ending,
        ((m.change j.slot fun t => { t with demands := t.demands + 1 }).janitor j.slot).past ending =
          (m.janitor j.slot).past ending := by
      intro ending
      cases ending with
      | close => exact (congrArg JanitorState.closed hself :)
      | release => exact (congrArg JanitorState.released hself :)
    have hrelease := teardownEffect_release hbase ((hpast .release).trans hopen)
      (fun ending hending => (h ending ((hpast ending).symm.trans hending)).teardownMono
        htally.toTeardownMono)
      (hq.trans_eq htally.made.symm) left
    refine (htally.trans hrelease).congr (fun _ => rfl) fun q => ?_
    exact congrArg (only j.statistics · q _) (funext fun s => congrArg₂ s.less
      (congrArg JanitorState.live hself :).symm (congrArg JanitorState.due hself :).symm)

theorem performed_demand (j : Janitor) {left : Nat} (hleft : 2 ≤ left) :
    (((switches left).demand j).run m).1.performed = !(m.janitor j.slot).released := by
  cases hopen : (m.janitor j.slot).released with
  | true =>
    rw [run_demand_switches _ hopen]
    rfl
  | false =>
    obtain ⟨left, rfl⟩ := Nat.exists_eq_add_of_le' hleft
    exact Janitor.performed_release ((released_demanded m j.slot).trans hopen)

end demand

def Provider.openCursors (m : Store α) : Provider → Nat
  | managed slot _ _ _ => (m.janitor slot).openCursors
  | _ => 0

namespace Store

/-- The number of these providers that are not closed. -/
def unclosed (m : Store α) (ps : List Provider) : Nat := ps.countP fun p => !p.isClosed m

/-- The number of open cursors of these providers, released ones not counted. -/
def outstanding (m : Store α) (ps : List Provider) : Nat :=
  ((ps.filter fun p => !p.isReleased m).map (Provider.openCursors m)).sum

/-- No provider of the list affects another one when it is released. -/
def IsolatedAll (m : Store α) (ps : List Provider) : Prop :=
  ∀ p ∈ ps, ∀ j, p.janitor? = some j → ∀ ending, (m.janitor j.slot).past ending = false →
    j.delegate.Isolated m j.slot ending

variable {m m' : Store α} {ps : List Provider} {slot q left : Nat} {hook : Hook} {inner : Provider}
  {below : Nat → Prop}

/-- Every released janitor is closed. -/
def Ordered (m : Store α) : Prop := ∀ slot, (m.janitor slot).released → (m.janitor slot).closed

theorem Orderly.ordered (hm : m.Orderly) : m.Ordered := by
  intro slot hreleased
  by_cases hlt : slot < m.janitors.size
  · exact (hm slot hlt).closed hreleased
  · rw [janitor_of_le (Nat.le_of_not_lt hlt)]
    rfl

theorem Ordered.ended {f : Nat → Statistics → Statistics} (hm : m.Ordered)
    (h : TeardownEffect below (only slot JanitorState.ended) f m m') : m'.Ordered := by
  intro other hreleased
  have hother := h.janitor other
  by_cases hsame : other = slot
  · rw [hsame, only_self] at hother
    exact hsame ▸ (congrArg JanitorState.closed hother :)
  · rw [only_of_ne hsame] at hother
    exact (congrArg JanitorState.closed hother :).trans
      (hm other ((congrArg JanitorState.released hother :).symm.trans hreleased))

theorem IsolatedAll.teardownMono (h : m.IsolatedAll ps) (hm : m.TeardownMono m') : m'.IsolatedAll ps := by
  intro p hp j hj ending hopen
  refine (h p hp j hj ending ?_).teardownMono hm
  cases hpast : (m.janitor j.slot).past ending with
  | true => exact (hm.past j.slot ending hpast).symm.trans hopen
  | false => rfl

theorem isolatedAll_of_isBare (h : ps.all fun p => p.janitor?.all fun j => j.delegate.isBare m) :
    m.IsolatedAll ps := by
  intro p hp j hj ending _
  have hbare := List.all_eq_true.mp h p hp
  rw [hj] at hbare
  exact Provider.isolated_of_isBare hbare

theorem unclosed_cons (slot q : Nat) (hook : Hook) (inner : Provider) (ps : List Provider) :
    m.unclosed (.managed slot q hook inner :: ps) = (m.janitor slot).live + m.unclosed ps := by
  rw [unclosed, List.countP_cons, JanitorState.live, unclosed, add_comm, Provider.isClosed]
  cases (m.janitor slot).closed with
  | true => rfl
  | false => rfl

theorem outstanding_cons (slot q : Nat) (hook : Hook) (inner : Provider) (ps : List Provider) :
    m.outstanding (.managed slot q hook inner :: ps) = (m.janitor slot).due + m.outstanding ps := by
  rw [outstanding, List.filter_cons, JanitorState.due, outstanding, Provider.isReleased]
  cases (m.janitor slot).released with
  | true => exact (Nat.zero_add _).symm
  | false => rfl

theorem counts_congr (h : ∀ p ∈ ps, ∃ slot q inner, p = .managed slot q .plain inner ∧
    (m'.janitor slot).untallied = (m.janitor slot).untallied) :
    m'.unclosed ps = m.unclosed ps ∧ m'.outstanding ps = m.outstanding ps ∧
      (ps.any fun p => !p.isReleased m') = ps.any fun p => !p.isReleased m := by
  induction ps with
  | nil => exact ⟨rfl, rfl, rfl⟩
  | cons p ps ih =>
    obtain ⟨slot, q, inner, rfl, hslot⟩ := h p List.mem_cons_self
    obtain ⟨hunclosed, houtstanding, hany⟩ := ih fun p hp => h p (List.mem_cons_of_mem _ hp)
    have hlive : (m'.janitor slot).live = (m.janitor slot).live := (congrArg JanitorState.live hslot :)
    have hdue : (m'.janitor slot).due = (m.janitor slot).due := (congrArg JanitorState.due hslot :)
    have hreleased : (m'.janitor slot).released = (m.janitor slot).released :=
      (congrArg JanitorState.released hslot :)
    rw [unclosed_cons, unclosed_cons, outstanding_cons, outstanding_cons, List.any_cons, List.any_cons,
      hunclosed, houtstanding, hany, hlive, hdue, Provider.isReleased, Provider.isReleased, hreleased]
    exact ⟨rfl, rfl, rfl⟩

theorem teardownEffect_releaseAll (hps : ∀ p ∈ ps, ∃ slot inner, p = .managed slot q .plain inner)
    (hdistinct : (ps.map Provider.slot?).Nodup) (hbase : ∀ p ∈ ps, below p.baseSlot)
    (hisolated : m.IsolatedAll ps)
    (horder : m.Ordered) (hq : q < m.statistics.size) (hleft : ∀ p ∈ ps, 2 ≤ left) (report : Report) :
    TeardownEffect below (fun slot t => if some slot ∈ ps.map Provider.slot? then t.ended else t)
        (only q (·.less (m.unclosed ps) (m.outstanding ps))) m
        ((Manager.releaseAll (switches left) ps report).run m).2 ∧
      ((Manager.releaseAll (switches left) ps report).run m).1.performed =
        (report.performed || ps.any fun p => !p.isReleased m) := by
  induction ps generalizing m report with
  | nil =>
    refine ⟨(Untouched.refl m).congr (fun slot => if_neg List.not_mem_nil) fun p => ?_,
      (Bool.or_false _).symm⟩
    exact ite_eq_right_iff.mpr fun _ => Statistics.less_zero _
  | cons p ps ih =>
    obtain ⟨slot, inner, rfl⟩ := hps p List.mem_cons_self
    obtain ⟨hnew, hrest⟩ := List.nodup_cons.mp hdistinct
    have hdemand := teardownEffect_demand (j := ⟨slot, q, inner⟩)
      (hbase (.managed slot q .plain inner) List.mem_cons_self) (horder slot)
      (hisolated _ List.mem_cons_self ⟨slot, q, inner⟩ rfl) hq (hleft _ List.mem_cons_self)
    have hperformed := performed_demand (m := m) ⟨slot, q, inner⟩ (hleft _ List.mem_cons_self)
    have hrun : (Manager.releaseAll (switches left) (.managed slot q .plain inner :: ps) report).run m =
        (Manager.releaseAll (switches left) ps (report.merge
          (((switches left).demand ⟨slot, q, inner⟩).run m).1)).run
          (((switches left).demand ⟨slot, q, inner⟩).run m).2 := rfl
    rw [hrun]
    generalize ((switches left).demand ⟨slot, q, inner⟩).run m = x at hdemand hperformed ⊢
    obtain ⟨done, m₁⟩ := x
    have hapart : ∀ p ∈ ps, ∃ slot q inner, p = .managed slot q .plain inner ∧
        (m₁.janitor slot).untallied = (m.janitor slot).untallied := by
      intro p hp
      obtain ⟨other, inner', rfl⟩ := hps p (List.mem_cons_of_mem _ hp)
      refine ⟨other, q, inner', rfl, (hdemand.janitor other).trans (only_of_ne ?_ _ _)⟩
      rintro rfl
      exact hnew (List.mem_map.mpr ⟨_, hp, rfl⟩)
    obtain ⟨hunclosed, houtstanding, hany⟩ := counts_congr hapart
    obtain ⟨heffect, hall⟩ := ih (fun p hp => hps p (List.mem_cons_of_mem _ hp)) hrest
      (fun p hp => hbase p (List.mem_cons_of_mem _ hp))
      (IsolatedAll.teardownMono (fun p hp => hisolated p (List.mem_cons_of_mem _ hp)) hdemand.toTeardownMono)
      (horder.ended hdemand) (hq.trans_eq hdemand.made.symm)
      (fun p hp => hleft p (List.mem_cons_of_mem _ hp)) (report.merge done)
    refine ⟨(hdemand.trans heffect).congr (fun other => ?_) fun p => ?_, ?_⟩
    · by_cases hsame : other = slot
      · rw [hsame, only_self]
        exact (if_pos List.mem_cons_self).trans (if_neg hnew).symm
      · have hmem : some other ∈ (Provider.managed slot q .plain inner :: ps).map Provider.slot? ↔
            some other ∈ ps.map Provider.slot? :=
          List.mem_cons.trans (or_iff_right fun h => hsame (Option.some.inj h))
        rw [only_of_ne hsame]
        exact if_congr hmem rfl rfl
    · rw [only_only, unclosed_cons, outstanding_cons, hunclosed, houtstanding]
      exact congrArg (only q · p _) (funext fun s => (Statistics.less_less ..).symm)
    · rw [hall, hany, Report.merge, hperformed, List.any_cons, Bool.or_assoc]
      rfl

end Store

namespace Store

variable {m m' : Store α} {manager : Nat} {context : String} {t : ManagerState} {below : Nat → Prop}

theorem teardownEffect_complete (hm : m.Orderly) (hlisting : m.Listing) (ht : m.manager? manager = some t)
    (hbase : ∀ p ∈ m.listed manager context, below p.baseSlot)
    (hisolated : m.IsolatedAll (m.listed manager context)) :
    TeardownEffect below
        (fun slot t => if some slot ∈ (m.listed manager context).map Provider.slot? then t.ended else t)
        (only t.statistics (·.less (m.unclosed (m.listed manager context))
          (m.outstanding (m.listed manager context)))) (m.forgetting manager context)
        ((Manager.complete (switches m.endings) manager context).run m).2 ∧
      ((Manager.complete (switches m.endings) manager context).run m).1.performed =
        (m.listed manager context).any fun p => !p.isReleased m := by
  cases hps : t.contexts.lookup context with
  | none =>
    have hnone : m.lists manager context = none := by
      rw [lists, ht]
      exact hps
    have hsame : m.forgetting manager context = m := by
      refine congrArg (fun managers => { m with managers }) (modify_eq_self fun t' ht' => ?_)
      exact ManagerState.forget_of_untracked (Option.some.inj (ht.symm.trans ht') ▸ hps)
    rw [run_complete_unlisted hnone, hsame, listed, hnone]
    refine ⟨(Untouched.refl m).congr (fun slot => if_neg List.not_mem_nil) fun p => ?_, rfl⟩
    exact ite_eq_right_iff.mpr fun _ => Statistics.less_zero _
  | some ps =>
    have hlisted : m.listed manager context = ps := by
      rw [listed_of_manager ht, ManagerState.providersIn, hps]
      rfl
    have hsound := hlisting manager t ht
    have hmanaged := hsound.managed context
    have hdistinct := hsound.distinct context
    rw [← listed_of_manager ht context, hlisted] at hmanaged hdistinct
    rw [hlisted] at hbase hisolated ⊢
    have hmono : m.TeardownMono (m.forgetting manager context) :=
      .of_lent (fun _ => rfl) (fun _ => rfl) fun _ _ => id
    have hendings : ∀ p ∈ ps, 2 ≤ m.endings := by
      intro p hp
      obtain ⟨slot, inner, -, hslot⟩ := hmanaged p hp
      unfold endings
      omega
    have hsame : ∀ p ∈ ps, ∃ slot q inner, p = .managed slot q .plain inner ∧
        ((m.forgetting manager context).janitor slot).untallied = (m.janitor slot).untallied := by
      intro p hp
      obtain ⟨slot, inner, rfl, -⟩ := hmanaged p hp
      exact ⟨slot, t.statistics, inner, rfl, rfl⟩
    obtain ⟨heffect, hperformed⟩ := teardownEffect_releaseAll (m := m.forgetting manager context)
      (fun p hp => (hmanaged p hp).imp fun _ => Exists.imp fun _ => And.left) hdistinct hbase
      (hisolated.teardownMono hmono) hm.ordered hsound.statistics hendings .skipped
    obtain ⟨hunclosed, houtstanding, hany⟩ := counts_congr hsame
    rw [hunclosed, houtstanding] at heffect
    rw [hany] at hperformed
    rw [Manager.run_complete_tracked ht hps]
    exact ⟨heffect.trans (untouched_note _ _), hperformed⟩

/-- The base provider below one that is listed under the context. -/
def Beneath (m : Store α) (manager : Nat) (context : String) (slot : Nat) : Prop :=
  ∃ p ∈ m.listed manager context, p.baseSlot = slot

/-- The effect of completing a context on statistics, providers and lists. -/
structure Completes (m : Store α) (manager : Nat) (context : String) (q : Nat) (report : Report)
    (m' : Store α) : Prop where
  ended : ∀ p ∈ m.listed manager context, p.isClosed m' ∧ p.isReleased m'
  leaked : ∀ p ∈ m.listed manager context, p.openCursors m' = p.openCursors m
  untracked : m'.lists manager context = none
  others : ∀ i c, (i, c) ≠ (manager, context) → m'.lists i c = m.lists i c
  apart : ∀ slot, ¬m.Names manager context slot → (m'.janitor slot).account = (m.janitor slot).account
  bases : ∀ slot, ¬m.Beneath manager context slot → m'.baseClosed slot = m.baseClosed slot
  providers : (m'.statisticsAt q).providers =
    (m.statisticsAt q).providers - m.unclosed (m.listed manager context)
  cursors : (m'.statisticsAt q).cursors =
    (m.statisticsAt q).cursors - m.outstanding (m.listed manager context)
  exact : (m'.statisticsAt q).clipped = false →
    (m.statisticsAt q).providers = (m'.statisticsAt q).providers + m.unclosed (m.listed manager context) ∧
      (m.statisticsAt q).cursors = (m'.statisticsAt q).cursors + m.outstanding (m.listed manager context)
  elsewhere : ∀ other ≠ q, m'.statisticsAt other = m.statisticsAt other
  performed : report.performed ↔ ∃ p ∈ m.listed manager context, ¬p.isReleased m
  again : (withSwitches fun w => Manager.complete w manager context).run m' = (.skipped, m')

theorem completes (hm : m.Orderly) (hlisting : m.Listing) (ht : m.manager? manager = some t)
    (hisolated : m.IsolatedAll (m.listed manager context)) :
    m.Completes manager context t.statistics
      ((Manager.complete (switches m.endings) manager context).run m).1
      ((Manager.complete (switches m.endings) manager context).run m).2 := by
  have hbase : ∀ p ∈ m.listed manager context, m.Beneath manager context p.baseSlot :=
    fun p hp => ⟨p, hp, rfl⟩
  obtain ⟨heffect, hperformed⟩ := teardownEffect_complete hm hlisting ht hbase hisolated
  have hlists := lists_complete m m.endings manager context
  generalize (Manager.complete (switches m.endings) manager context).run m = x at heffect hperformed hlists ⊢
  obtain ⟨report, m'⟩ := x
  have huntracked : m'.lists manager context = none := (hlists manager context).trans (if_pos rfl)
  have hjanitor := heffect.janitor
  have hstatistics := heffect.statistics t.statistics
  rw [only_self] at hstatistics
  have hmanaged : ∀ p ∈ m.listed manager context, ∃ slot inner, p = .managed slot t.statistics .plain inner ∧
      (m'.janitor slot).untallied = (m.janitor slot).untallied.ended := by
    intro p hp
    obtain ⟨slot, inner, rfl, -⟩ :=
      (hlisting manager t ht).managed context p (listed_of_manager ht context ▸ hp)
    exact ⟨slot, inner, rfl, (hjanitor slot).trans (if_pos (List.mem_map.mpr ⟨_, hp, rfl⟩))⟩
  refine ⟨fun p hp => ?_, fun p hp => ?_, huntracked, fun i c hne => (hlists i c).trans (if_neg hne),
    fun slot hslot => ?_, heffect.bases, ?_, ?_, fun hexact => ?_, fun q hq => ?_, ?_,
    (Call.run_withSwitches _ m').trans (run_complete_unlisted huntracked)⟩
  · obtain ⟨slot, inner, rfl, hslot⟩ := hmanaged p hp
    exact ⟨(congrArg JanitorState.closed hslot :), (congrArg JanitorState.released hslot :)⟩
  · obtain ⟨slot, inner, rfl, hslot⟩ := hmanaged p hp
    exact (congrArg JanitorState.openCursors hslot :)
  · have hsame := (hjanitor slot).trans (if_neg fun h => hslot (List.mem_map.mp h))
    exact (congrArg JanitorState.account hsame :)
  · exact congrArg Statistics.providers hstatistics
  · exact congrArg Statistics.cursors hstatistics
  · rw [hstatistics] at hexact ⊢
    exact Statistics.eq_add_of_less hexact
  · exact (heffect.statistics q).trans (only_of_ne hq _ _)
  · rw [hperformed]
    simp

end Store

end Replay
