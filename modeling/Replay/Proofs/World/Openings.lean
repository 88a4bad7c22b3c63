import Mathlib.Algebra.Order.BigOperators.Group.Finset
import Replay.Proofs.Accounts.LentKept
import Replay.Proofs.World.ReentrantOps

/-!
A failed `open_cursor` leaves no trace. What opening changes below the provider, or a scripted layer
ends meanwhile, is counted exactly; the provider's own counter rises by the cursor returned, unless a
scripted layer calls back to a provider over another feed and thereby closes a source that reads from
one of its cursors.
-/
namespace Replay

open Store

variable {α β γ : Type} {r : Roster}

/-- All hooks are plain. -/
def Provider.Plain : Provider → Prop
  | base .. => True
  | managed _ _ hook inner => hook = .plain ∧ inner.Plain
  | scripted _ _ inner => inner.Plain

def Store.Call.Brings (f : Call α β) (P : β → Prop) : Prop := ∀ m : Store α, P (f.run m).1

namespace Store.Call.Brings

variable {f : Call α β} {g : β → Call α γ} {P : β → Prop} {Q : γ → Prop}

theorem pure {x : β} (hP : P x) : Call.Brings (Pure.pure x : Call α β) P := fun _ => hP

theorem bind (hf : f.Brings P) (hg : ∀ x, P x → (g x).Brings Q) : (f >>= g).Brings Q :=
  fun m => hg _ (hf m) _

theorem skip (hg : ∀ x, (g x).Brings Q) : (f >>= g).Brings Q := fun _ => hg _ _

end Store.Call.Brings

namespace Provider

variable {w : Switches α} {slot q : Nat} {hook : Hook} {inner : Provider} {m : Store α}

theorem brings_openCursor_managed {P : Cursor → Prop}
    (hinner : (inner.openCursor w).Brings fun x => ∀ c, x = .ok c → P c) :
    ((managed slot q .plain inner).openCursor w).Brings
      fun x => ∀ c, x = .ok c → ∃ d, c = .managed ⟨slot, q, inner⟩ false d ∧ P d := by
  refine .skip fun m => ?_
  split
  · exact .pure nofun
  · refine hinner.bind fun x hx => ?_
    cases x with
    | error stop => exact .pure nofun
    | ok d =>
      refine .skip fun _ => ?_
      refine .skip fun _ => ?_
      refine .skip fun m => ?_
      split
      · refine .skip fun _ => ?_
        refine .skip fun _ => ?_
        refine .skip fun _ => ?_
        exact .pure nofun
      · refine .pure fun c hc => ?_
        cases hc
        exact ⟨d, rfl, hx d rfl⟩

theorem brings_openCursor {p : Provider} (hp : p.Plain) (w : Switches α) :
    (p.openCursor w).Brings fun x => ∀ c, x = .ok c → c.provider = p.id ∧ c.position = 0 := by
  induction p with
  | base slot id feed =>
    refine .skip fun m => ?_
    split
    · exact .pure nofun
    · refine .pure fun c hc => ?_
      cases hc
      exact ⟨rfl, rfl⟩
  | managed slot q hook inner ih =>
    obtain ⟨rfl, hp⟩ := hp
    intro m c hc
    obtain ⟨d, rfl, hd⟩ := brings_openCursor_managed (ih hp) m c hc
    exact hd
  | scripted slot script inner ih =>
    refine .skip fun m => ?_
    refine .skip fun _ => ?_
    refine .skip fun x => ?_
    cases x with
    | error stop => exact .pure nofun
    | ok =>
      refine (ih hp).bind fun x hx => ?_
      cases x with
      | error stop => exact .pure nofun
      | ok c =>
        refine .skip fun x => ?_
        cases x with
        | error stop => exact .skip fun _ => .pure nofun
        | ok =>
          dsimp only
          split
          · exact .pure hx
          · refine .pure fun d hd => ?_
            cases hd
            exact hx c rfl

end Provider

theorem Store.Frame.lentCounts_le {n : Nat} {m m' : Store α} (h : Frame n m m') (slot : Nat) :
    m'.feeds.lentCounts slot ≤ m.feeds.lentCounts slot := by
  rw [Feeds.lentCounts, Feeds.lentCounts, h.feeds.size, Finset.sum_apply, Finset.sum_apply]
  refine Finset.sum_le_sum fun feed _ => ?_
  cases hc : m'.feeds.lent feed with
  | none => exact Nat.zero_le _
  | some c => rw [h.lent feed c hc]

namespace World

variable {w : World α} {p : Provider}

/-- `open_cursor`, keeping the cursor if one is returned. -/
def opening (w : World α) (p : Provider) : Outcome StreamError Cursor × World α :=
  let (x, store) := (withSwitches fun s => p.openCursor s).run w.store
  (x, { w with store, cursors := w.cursors ++ x.toOption.toList })

theorem cursors_opening (w : World α) (p : Provider) :
    (w.opening p).2.cursors = w.cursors ++ (w.opening p).1.toOption.toList := rfl

theorem cursors_opening_of_error {stop : Stop StreamError} (h : (w.opening p).1 = .error stop) :
    (w.opening p).2.cursors = w.cursors := by
  rw [cursors_opening, h]
  exact List.append_nil _

theorem opening_of_closed {slot q : Nat} {hook : Hook} {inner : Provider}
    (hclosed : (w.store.janitor slot).closed) :
    w.opening (.managed slot q hook inner) = (.raise (.providerClosed inner.id), w) := by
  have hrun : (withSwitches fun s => (Provider.managed slot q hook inner).openCursor s).run w.store =
      (.raise (.providerClosed inner.id), w.store) := by
    rw [Call.run_withSwitches]
    exact Provider.run_openCursor_of_closed hclosed _ hook
  have hnone : w.cursors ++ (Outcome.raise (.providerClosed inner.id) :
      Outcome StreamError Cursor).toOption.toList = w.cursors := List.append_nil _
  rw [opening, hrun]
  dsimp only
  rw [hnone]

theorem wraps_opening {slot q : Nat} {inner : Provider} {c : Cursor}
    (h : (w.opening (.managed slot q .plain inner)).1 = .ok c) :
    ∃ d, c = .managed ⟨slot, q, inner⟩ false d := by
  have hinner : (inner.openCursor (switches w.store.endings : Switches α)).Brings
      fun x => ∀ c : Cursor, x = .ok c → True := fun _ _ _ => trivial
  obtain ⟨d, rfl, -⟩ := Provider.brings_openCursor_managed hinner w.store c h
  exact ⟨d, rfl⟩

theorem starts_opening {c : Cursor} (hp : p.Plain) (h : (w.opening p).1 = .ok c) :
    c.provider = p.id ∧ c.position = 0 :=
  Provider.brings_openCursor hp (switches w.store.endings) w.store c h

theorem Invariant.opening (hw : w.Invariant r 0) (hp : p ∈ w.providers) : (w.opening p).2.Invariant r 0 :=
  hw.openCursor hp

theorem held_opening (w : World α) (p : Provider) :
    (w.opening p).2.held = w.held + (w.opening p).1.counted := by
  refine (held_append w (w.opening p).1.toOption.toList).trans (congrArg (w.held + ·) ?_)
  cases (w.opening p).1 with
  | error stop => rfl
  | ok c => exact List.sum_singleton

theorem Invariant.openCursors_opening (hw : w.Invariant r 0) (hp : p ∈ w.providers) {j : Janitor}
    (hj : p.janitor? = some j) (hin : p.Inward w.store.bound) :
    ((w.opening p).2.store.janitor j.slot).openCursors =
      (w.store.janitor j.slot).openCursors + (w.opening p).1.counted j.slot := by
  have hmem : j ∈ w.janitors := List.mem_filterMap.mpr ⟨p, hp, hj⟩
  have hbefore := (hw.accounted.janitors j hmem).1
  have hafter := ((hw.opening hp).accounted.janitors j hmem).1
  have hlent : (w.opening p).2.store.feeds.lentCounts j.slot = w.store.feeds.lentCounts j.slot := by
    cases p with
    | base slot id feed => cases hj
    | scripted slot script inner => cases hj
    | managed slot statistics hook inner =>
      cases hj
      obtain ⟨hhook, hunder⟩ := Provider.under_managed.mp (hw.providers _ hp)
      have hkeepLent := keepLent_switches (α := α) (b := w.store.bound) hw.store.sorted slot w.store.endings
      exact (hkeepLent.openManaged hunder hhook hin w.store hw.store.covers rfl).1.lentCounts
  rw [hafter, hbefore, live, live, held_opening, hlent, Pi.add_apply]
  omega

theorem Invariant.openCursors_opening_le (hw : w.Invariant r 0) (hp : p ∈ w.providers) {j : Janitor}
    (hj : j ∈ w.janitors) : ((w.opening p).2.store.janitor j.slot).openCursors ≤
      (w.store.janitor j.slot).openCursors + (w.opening p).1.counted j.slot := by
  have hbefore := (hw.accounted.janitors j hj).1
  have hafter := ((hw.opening hp).accounted.janitors j hj).1
  have hlent :=
    ((hw.switches_countsExact w.store.endings).openCursor (hw.providers p hp) le_rfl (.inr le_rfl) w.store
    hw.store.covers).1.toFrame.lentCounts_le j.slot
  have hfeeds : (w.opening p).2.store.feeds.lentCounts j.slot ≤ w.store.feeds.lentCounts j.slot := hlent
  rw [hafter, hbefore, live, live, held_opening, Pi.add_apply]
  omega

theorem Invariant.counted_opening {slot q : Nat} {inner : Provider} {c : Cursor} (hw : w.Invariant r 0)
    (hp : .managed slot q .plain inner ∈ w.providers)
    (hx : (w.opening (.managed slot q .plain inner)).1 = .ok c) :
    (w.opening (.managed slot q .plain inner)).1.counted slot = 1 := by
  obtain ⟨d, rfl⟩ := wraps_opening hx
  have hmem : Cursor.managed ⟨slot, q, inner⟩ false d ∈
      (w.opening (.managed slot q .plain inner)).2.cursors := by
    rw [cursors_opening, hx]
    exact List.mem_append_right _ (List.mem_singleton.mpr rfl)
  have hunder := (hw.opening hp).cursors _ hmem
  have hcounted : (Cursor.managed ⟨slot, q, inner⟩ false d).counted slot = 1 := by
    rw [Cursor.counted_managed, Pi.add_apply, hunder.2.below.counted_eq_zero le_rfl]
    exact (Nat.zero_add _).trans Janitor.one_self
  rw [hx]
  exact hcounted

/-- After a failed or panicked opening all counts are exact, no counter has risen, and the provider's
own is unchanged. Once a provider is closed every opening fails and changes nothing. A successful
opening counts exactly the cursor returned. -/
theorem failed_open_leaves_no_trace (vs : List (ReentrantOp α)) {slot q : Nat} {hook : Hook}
    {inner : Provider}
    (hp : .managed slot q hook inner ∈ (({} : World α).runReentrant vs).providers) :
    let p := Provider.managed slot q hook inner
    let w := ({} : World α).runReentrant vs
    (w.opening p).2.Accounted ∧
    (∀ stop, (w.opening p).1 = .error stop → (w.opening p).2.cursors = w.cursors ∧
      (∀ j ∈ w.janitors, ((w.opening p).2.store.janitor j.slot).openCursors ≤
        (w.store.janitor j.slot).openCursors) ∧
      (p.Inward w.store.bound → ((w.opening p).2.store.janitor slot).openCursors =
        (w.store.janitor slot).openCursors)) ∧
    ((w.store.janitor slot).closed → ∀ later, (w.runReentrant later).opening p =
      (.raise (.providerClosed p.id), w.runReentrant later)) ∧
    (hook = .plain → ∀ c, (w.opening p).1 = .ok c → c.isReleased = false ∧
      (p.Inward w.store.bound → ((w.opening p).2.store.janitor slot).openCursors =
        (w.store.janitor slot).openCursors + 1) ∧
      (p.Plain → c.provider = p.id ∧ c.position = 0)) := by
  intro p w
  obtain ⟨r, hw⟩ := Invariant.start.runReentrant (α := α) vs
  have hj : p.janitor? = some ⟨slot, q, inner⟩ := rfl
  have hmem : ⟨slot, q, inner⟩ ∈ w.janitors := List.mem_filterMap.mpr ⟨p, hp, hj⟩
  refine ⟨(hw.opening hp).accounted, fun stop hx => ⟨?_, fun j hmem => ?_, fun hin => ?_⟩,
    fun hclosed later => ?_, fun hhook c hx => ⟨?_, fun hin => ?_, fun hplain => ?_⟩⟩
  · exact cursors_opening_of_error hx
  · have hle := hw.openCursors_opening_le hp hmem
    rw [hx] at hle
    exact hle
  · have hcount := hw.openCursors_opening hp hj hin
    rw [hx] at hcount
    exact hcount
  · have hslot := (hw.janitor_under hp hj).slot.trans_eq hw.store.janitors
    exact opening_of_closed ((w.flagsPersist_runReentrant later).closed slot hslot hclosed)
  · subst hhook
    obtain ⟨d, rfl⟩ := wraps_opening hx
    rfl
  · subst hhook
    exact (hw.openCursors_opening hp hj hin).trans (congrArg _ (hw.counted_opening hp hx))
  · exact starts_opening hplain hx

theorem reentrantOnOpen_onOpen (onOpen : Nat → Act) : Script.ReentrantOnOpen { onOpen } where
  onClose _ := trivial
  afterClose _ := trivial
  onRelease _ := trivial
  afterRelease _ := trivial
  cursorRelease := nofun

def releaseOnSecondOpen : Script := { onOpen := fun call => if call = 1 then .outer .release else .pass }

def reentrantProvider : Provider := .managed 0 0 .plain (.scripted 0 releaseOnSecondOpen (.base 0 ⟨1⟩ 0))

def openTimes (times : Nat) : List (ReentrantOp Nat) :=
  [.client .addStatistics, .client (.addBase ⟨2, 2, .unbounded, .owned⟩ (.ready (.bare #[7, 8, 9]) rfl)),
    .addScripted releaseOnSecondOpen (reentrantOnOpen_onOpen _) 0, .addManaged 0 .plain trivial 1,
      .bindOuter 1 2] ++
    List.replicate times (.client (.openCursor 2))

theorem inward_reentrantProvider :
    reentrantProvider.Inward (({} : World Nat).runReentrant (openTimes 1)).store.bound := by
  refine ⟨fun o ho => ?_, trivial⟩
  have hbound : some ⟨0, 0, .scripted 0 releaseOnSecondOpen (.base 0 ⟨1⟩ 0)⟩ = some o := ho
  cases hbound
  rfl

/-- The second opening fails because the scripted layer releases the provider meanwhile; the first
cursor stays counted. -/
theorem failed_open_leaves_no_trace_second :
    (∃ c, ((({} : World Nat).runReentrant (openTimes 0)).opening reentrantProvider).1 = .ok c ∧
      c.isReleased = false ∧
      c.provider = reentrantProvider.id ∧ c.position = 0) ∧
    ((({} : World Nat).runReentrant (openTimes 1)).opening reentrantProvider).1 =
      .raise (.providerClosed ⟨1⟩) ∧
    ((({} : World Nat).runReentrant (openTimes 1)).opening reentrantProvider).2.Accounted ∧
    ((({} : World Nat).runReentrant (openTimes 1)).store.janitor 0).openCursors = 1 ∧
    (((({} : World Nat).runReentrant (openTimes 1)).opening reentrantProvider).2.store.janitor
      0).openCursors = 1 ∧
    ((({} : World Nat).runReentrant (openTimes 2)).store.janitor 0).closed ∧
    ∀ later, ((({} : World Nat).runReentrant (openTimes 2)).runReentrant later).opening reentrantProvider =
      (.raise (.providerClosed reentrantProvider.id),
        (({} : World Nat).runReentrant (openTimes 2)).runReentrant later) := by
  have hprovider : Provider.managed 0 0 .plain (.scripted 0 releaseOnSecondOpen (.base 0 ⟨1⟩ 0)) =
    reentrantProvider := rfl
  have hopened : ((({} : World Nat).runReentrant (openTimes 0)).opening reentrantProvider).1 =
      .ok (.managed ⟨0, 0, .scripted 0 releaseOnSecondOpen (.base 0 ⟨1⟩ 0)⟩ false (.plain 0 ⟨1⟩ {})) := rfl
  have hfailed : ((({} : World Nat).runReentrant (openTimes 1)).opening reentrantProvider).1 =
      .raise (.providerClosed ⟨1⟩) := rfl
  have hcount : ((({} : World Nat).runReentrant (openTimes 1)).store.janitor 0).openCursors = 1 := by
    decide +kernel
  have hclosed : ((({} : World Nat).runReentrant (openTimes 2)).store.janitor 0).closed := by decide +kernel
  have hfirst :=
    failed_open_leaves_no_trace (openTimes 0) (List.mem_of_getElem? (i := 2) (a := reentrantProvider) rfl)
  have hsecond :=
    failed_open_leaves_no_trace (openTimes 1) (List.mem_of_getElem? (i := 2) (a := reentrantProvider) rfl)
  have hthird :=
    failed_open_leaves_no_trace (openTimes 2) (List.mem_of_getElem? (i := 2) (a := reentrantProvider) rfl)
  dsimp only at hfirst hsecond hthird
  rw [hprovider] at hfirst hsecond hthird
  obtain ⟨-, -, -, hbrought⟩ := hfirst
  obtain ⟨hreleased, -, hstarts⟩ := hbrought rfl _ hopened
  obtain ⟨haccounted, hfails, -⟩ := hsecond
  obtain ⟨-, -, hsame⟩ := hfails _ hfailed
  obtain ⟨-, -, hrefused, -⟩ := hthird
  exact ⟨⟨_, hopened, hreleased, hstarts ⟨rfl, trivial⟩⟩, hfailed, haccounted, hcount,
    (hsame inward_reentrantProvider).trans hcount, hclosed, hrefused hclosed⟩

def releaseOnCursorRelease : Script := { cursorRelease := fun _ => some (.outer .release) }

/-- Two providers with common statistics; the hook of the second panics, and the cursors of its delegate
call back when they are released. -/
def sharedStatistics : World Nat :=
  let w := ({} : World Nat).run
    [.addStatistics, .addBase ⟨2, 2, .unbounded, .owned⟩ (.ready (.bare #[1, 2]) rfl), .addManaged 0 0,
      .openCursor 1,
      .addBase ⟨2, 2, .unbounded, .owned⟩ (.ready (.playing #[.panicked ⟨some "boom"⟩] none (.ok ())) rfl)]
  w.call (do
    let layer ← addScripted releaseOnCursorRelease (.base 1 ⟨2⟩ 1)
    bindOuter 0 ⟨1, 0, layer⟩
    addManaged 0 (.skip 1) layer) fun p w => { w with providers := w.providers ++ [p] }

def panickingHook : Provider := .managed 1 0 (.skip 1) (.scripted 0 releaseOnCursorRelease (.base 1 ⟨2⟩ 1))

def releaseOnOpen : Script := { onOpen := fun _ => .outer .release }

/-- A source reads from a cursor of the first provider, and is released by the next opening. -/
def lentCursor : World Nat :=
  ({} : World Nat).runReentrant
    [.client .addStatistics, .client (.addBase ⟨2, 2, .unbounded, .owned⟩ (.ready (.bare #[1, 2]) rfl)),
      .addScripted releaseOnOpen (reentrantOnOpen_onOpen _) 0,
      .addManaged 0 .plain trivial 1, .client (.openCursor 2),
      .client (.addBase ⟨2, 2, .unbounded, .owned⟩ (.chain 0)), .addManaged 0 .plain trivial 3,
      .bindOuter 1 4, .client (.close 0)]

def lender : Provider :=
  .managed 0 0 .plain (.scripted 0 releaseOnOpen (.base 0 ⟨1⟩ 0))

/-- The two exclusions are needed. A delegate that calls back while its cursor is released makes the
failed opening count the statistics down once too often; one that calls back to a provider over another
feed takes a lent cursor away. -/
theorem failed_open_miscounts :
    (panickingHook ∈ sharedStatistics.providers ∧
      (sharedStatistics.opening panickingHook).1 = .panic ⟨some "boom"⟩ ∧
      sharedStatistics.Accounted ∧ ¬(sharedStatistics.opening panickingHook).2.Accounted ∧
      ((sharedStatistics.opening panickingHook).2.store.statisticsAt 0).cursors = 0 ∧
      ((sharedStatistics.opening panickingHook).2.store.janitor 0).released = false ∧
      ((sharedStatistics.opening panickingHook).2.store.janitor 0).openCursors = 1) ∧
    lender ∈ lentCursor.providers ∧ (lentCursor.opening lender).1.toOption.isNone ∧
      (lentCursor.store.janitor 0).openCursors = 1 ∧
      ((lentCursor.opening lender).2.store.janitor 0).openCursors = 0 := by
  have haccounted : sharedStatistics.Accounted :=
    ⟨rfl, by decide +kernel, by decide +kernel, by decide +kernel, by decide +kernel⟩
  have hmiscounted : ¬(sharedStatistics.opening panickingHook).2.Accounted :=
    fun h => absurd (h.cursors 0 (by decide +kernel)) (by decide +kernel)
  have hpanic : (sharedStatistics.opening panickingHook).1 = .panic ⟨some "boom"⟩ := rfl
  have hcounts : ((sharedStatistics.opening panickingHook).2.store.statisticsAt 0).cursors = 0 ∧
      ((sharedStatistics.opening panickingHook).2.store.janitor 0).released = false ∧
      ((sharedStatistics.opening panickingHook).2.store.janitor 0).openCursors = 1 := by decide +kernel
  have hrefused : (lentCursor.opening lender).1.toOption.isNone := by decide +kernel
  have hbefore : (lentCursor.store.janitor 0).openCursors = 1 := by decide +kernel
  have hafter : ((lentCursor.opening lender).2.store.janitor 0).openCursors = 0 := by decide +kernel
  exact ⟨⟨List.mem_of_getElem? (i := 3) rfl, hpanic, haccounted, hmiscounted, hcounts⟩,
    List.mem_of_getElem? (i := 2) rfl, hrefused, hbefore, hafter⟩

end World

end Replay
