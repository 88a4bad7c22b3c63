import Replay.Proofs.Accounts.Switches
import Replay.Proofs.Janitor.Opening

/-!
Opening a cursor keeps counters and statistics exact. Each managed layer counts the cursor first, and
counts it out again where the cursor does not reach the caller.
-/
namespace Replay

open Store

variable {α β : Type} {r : Roster} {w : Switches α} {n N q : Nat} {m : Store α} {j : Janitor}
  {L : Ledger} {k : Nat → Nat} {c : Cursor}

def Outcome.counted (x : Outcome StreamError Cursor) : Nat → Nat := x.toOption.elim 0 Cursor.counted

theorem Store.lt_of_unclipped {slot : Nat} (h : (m.janitor slot).clipped = false) :
    slot < m.janitors.size := by
  by_contra hle
  rw [janitor_of_le (Nat.le_of_not_lt hle)] at h
  cases h

theorem Janitor.Under.countIn (hj : j.Under r n) (h : CountsExact r q (j.slot + 1) (L.hold k) m) :
    CountsExact r q (j.slot + 1)
      ((L.owe (if j.statistics = q then if (m.janitor j.slot).released then 1 else 0 else 0) 0).hold
        (k + j.one))
      ((m.change j.slot fun t => { t with openCursors := t.openCursors + 1 }).charge j.statistics
        (·.openCursor)) := by
  obtain ⟨hexact, hopen, hclipped⟩ := hj.countsExact_succ.mp h
  have hcharged := (hexact.openCursor (p := j.statistics)).held (L.held + (k + j.one))
    fun slot hslot => by
      have hzero : j.one slot = 0 := Janitor.one_eq_zero (Nat.ne_of_lt hslot)
      simp only [Ledger.owe, Ledger.hold, Pi.add_apply, hzero, add_zero]
  have hself := janitor_change_self (f := fun t => { t with openCursors := t.openCursors + 1 })
    (lt_of_unclipped hclipped)
  refine (hj.countsExact_change (m := m.charge j.statistics (·.openCursor)) hself).mpr ⟨?_, ?_, hclipped⟩
  · convert hcharged using 1
    simp only [Ledger.owe, Ledger.hold, JanitorState.due, janitor_charge, Ledger.mk.injEq, true_and]
    by_cases hq : j.statistics = q
    · simp only [hq, if_true]
      refine ⟨?_, rfl⟩
      by_cases hreleased : (m.janitor j.slot).released
      · simp only [hreleased, if_true, add_zero]
      · simp only [hreleased, Bool.false_eq_true, if_false, add_zero, add_assoc]
    · simp only [hq, if_false, add_zero, and_self]
  · change (m.janitor j.slot).openCursors + 1 = m.feeds.lentCounts j.slot + (L.held + (k + j.one)) j.slot
    rw [hopen, Ledger.held_hold, Pi.add_apply, Pi.add_apply, Janitor.one_self]
    omega

theorem Janitor.run_countCursor_of_unreleased (h : (m.janitor j.slot).released = false) (w : Switches α)
    (hook : Hook) (c : Cursor) (e : StreamError) :
    (j.countCursor w hook c e).run m = (hook.apply w j c).run ((m.change j.slot fun t =>
      { t with openCursors := t.openCursors + 1 }).charge j.statistics (·.openCursor)) := by
  have hsame : ((m.change j.slot fun t => { t with openCursors := t.openCursors + 1 }).janitor
      j.slot).released = (m.janitor j.slot).released := janitor_change_congr fun _ => rfl
  simp only [Janitor.countCursor, Call.run_bind, run_onJanitor, run_onStatistics, Call.run_get,
    janitor_charge, hsame, h, Bool.false_eq_true, if_false]

theorem Cursor.Under.transfers_onFeeds (hc : c.Under r n) {f : Feeds α → (β × Cursor) × Feeds α}
    (hf : ∀ s, c.Stays s ((f s).1.2, (f s).2)) :
    (onFeeds f).Transfers r n c.counted (fun x => x.2.counted) fun x => x.2.Under r n := by
  intro m _
  obtain ⟨hreads, hbare⟩ := hf m.feeds
  refine ⟨?_, hc.of_bare hbare⟩
  change Transfer r n m c.counted { m with feeds := (f m.feeds).2 } (f m.feeds).1.2.counted
  rw [Cursor.counted_eq_of_bare hbare]
  exact .of_feeds hreads.alike _

theorem Cursor.Under.transfers_skip (hc : c.Under r n) (count : Nat) :
    (c.skip count : Call α (Outcome StreamError Unit × Cursor)).Transfers r n c.counted
      (fun x => x.2.counted) fun x => x.2.Under r n := by
  induction count generalizing c with
  | zero => exact .pure rfl hc
  | succ count ih =>
    refine (hc.transfers_onFeeds fun s => ?_).bind fun x hx => ?_
    · exact c.readsTo_nextBy Feeds.endsNothing_draw
    · split
      · exact .pure rfl hx
      · exact ih hx

namespace Switches.CountsExact

theorem applyHook (hw : w.CountsExact r) {hook : Hook} (hhook : hook.Wraps) (hj : j.Under r n)
    (hc : c.Under r j.slot) :
    (hook.apply w j c).Transfers r n (c.counted + j.one) Outcome.counted
      fun x => ∀ d, x = .ok d → d.Under r n := by
  have hwrapped : (Cursor.managed j false c).Under r n := ⟨hj, hc⟩
  have hok : ∀ {d : Cursor}, d.Under r n → ∀ e, (.ok d : Outcome StreamError Cursor) = .ok e →
      e.Under r n := by
    rintro d hd e he
    cases he
    exact hd
  cases hook with
  | plain => exact .pure rfl (hok hwrapped)
  | raw => exact hhook.elim
  | seek position =>
    cases hs : (Cursor.managed j false c).seek position with
    | error e =>
      simp only [Hook.apply, hs]
      exact .pure rfl (hok hwrapped)
    | ok d =>
      simp only [Hook.apply, hs]
      exact .pure (Cursor.counted_eq_of_bare (Cursor.bare_seek hs))
        (hok (hwrapped.of_bare (Cursor.bare_seek hs)))
  | skip count =>
    refine (hwrapped.transfers_skip count).bind fun x hx => ?_
    split
    · exact .pure rfl (hok hx)
    · exact (hw.dropCursor hx).bind fun _ _ => .pure rfl nofun
  | released =>
    simp only [Hook.apply, Cursor.release, Bool.false_eq_true, if_false, bind_assoc, pure_bind]
    refine (hw.releaseCursor hj (hw.releaseLayers hc)).bind fun x hx => ?_
    exact .pure rfl (hok ⟨hj, hx.under⟩)
  | doubled => exact hhook.elim

theorem countCursor (hw : w.CountsExact r) {hook : Hook} (hhook : hook.Wraps) (hj : j.Under r n)
    (hc : c.Under r j.slot) (e : StreamError) : (j.countCursor w hook c e).Transfers r n c.counted
      Outcome.counted fun x => ∀ d, x = .ok d → d.Under r n := by
  refine Call.Transfers.mono (n := j.slot + 1) (fun m hm => ?_) hj.slot
  obtain ⟨m₁, hm₁⟩ : ∃ m₁, m₁ = (m.change j.slot fun t =>
    { t with openCursors := t.openCursors + 1 }).charge j.statistics (·.openCursor) := ⟨_, rfl⟩
  have hframe : Frame (j.slot + 1) m m₁ := by
    rw [hm₁]
    exact (Frame.change (Nat.lt_succ_self _) _).trans frame_charge
  have hcounts : ∀ slot, j.slot + 1 ≤ slot → (c.counted + j.one) slot = c.counted slot := by
    intro slot hslot
    rw [Pi.add_apply, Janitor.one_eq_zero (Nat.ne_of_gt hslot), add_zero]
  have hreleased : (m₁.janitor j.slot).released = (m.janitor j.slot).released := by
    rw [hm₁]
    exact janitor_change_congr fun _ => rfl
  simp only [Janitor.countCursor, Call.run_bind, run_onJanitor, run_onStatistics, Call.run_get, ← hm₁,
    hreleased]
  cases hr : (m.janitor j.slot).released with
  | true =>
    have hstruck : Transfer r (j.slot + 1) m c.counted
        (m₁.charge j.statistics (·.closeCursors 1)) (c.counted + j.one) := by
      refine ⟨hframe.trans frame_charge, hcounts, fun q L hL => CountsExact.closeCursors ?_⟩
      have hin := hj.countIn hL
      rw [Ledger.hold_owe]
      simpa only [hr, if_true, ← hm₁] using hin
    have hback : Call.Transfers r (j.slot + 1) (c.counted + j.one) (do
        let x ← j.releaseCursor w (c.release w)
        x.2.drop w
        return (.raise e : Outcome StreamError Cursor)) Outcome.counted
        fun x => ∀ d, x = .ok d → d.Under r n := by
      refine (hw.releaseCursor hj.least (hw.releaseLayers hc)).bind fun x hx =>
        ((hw.dropCursor hx.under).mono (Nat.le_succ _)).bind fun _ _ => .pure rfl fun d hd => ?_
      cases hd
    obtain ⟨htransfer, hP⟩ := hback _ (hstruck.covers hm)
    exact ⟨hstruck.trans htransfer, hP⟩
  | false =>
    have hin : Transfer r (j.slot + 1) m c.counted m₁ (c.counted + j.one) := by
      refine ⟨hframe, hcounts, fun q L hL => ?_⟩
      have hin := hj.countIn hL
      simpa only [hr, Bool.false_eq_true, if_false, ite_self, Ledger.owe_zero,
        ← hm₁] using hin
    obtain ⟨htransfer, hP⟩ := hw.applyHook hhook hj.least hc m₁ (hin.covers hm)
    exact ⟨hin.trans htransfer, fun d hd => (hP d hd).mono hj.slot⟩

theorem endOuter (hw : w.CountsExact r) (slot : Nat) (ending : Ending) :
    (w.endOuter slot ending).Neutral r r.statistics.length := by
  intro m hm
  rw [Switches.endOuter, Call.run_bind, Call.run_get]
  dsimp only
  cases houter : (m.script slot).outer with
  | none => exact .refl r _ m
  | some j =>
    have hj := hm.outer slot j houter
    dsimp only
    rw [Call.run_bind, Call.run_get]
    dsimp only
    split
    · exact .refl r _ m
    · cases ending with
      | close => exact Call.Neutral.map _ ((hw.close hj).neutral.mono hj.slot) m hm
      | release => exact Call.Neutral.map _ ((hw.demand hj).neutral.mono hj.slot) m hm

theorem perform (hw : w.CountsExact r) (act : Act) (slot : Nat)
    (hact : act.NonReentrant ∨ r.statistics.length ≤ N) : (act.perform w slot).Neutral r N := by
  cases act with
  | outer ending =>
    have hN : r.statistics.length ≤ N := hact.resolve_left id
    exact .bind ((hw.endOuter slot ending).mono hN) fun _ => .pure _
  | _ =>
    refine Act.NonReentrant.neutral ?_ w slot
    exact True.intro

/-- The counts change by those of the cursor returned. Where no scripted layer calls back, nothing above
the provider changes. -/
theorem openCursor (hw : w.CountsExact r) {p : Provider} (hp : p.Under r n) (hle : n ≤ N)
    (hacts : p.Inert ∨ r.statistics.length ≤ N) :
    (p.openCursor w).Transfers r N 0 Outcome.counted fun x => ∀ d, x = .ok d → d.Under r n := by
  induction p generalizing n with
  | base slot id feed =>
    refine Call.Neutral.get.then fun m => ?_
    split
    · exact .pure rfl nofun
    · refine .pure rfl fun d hd => ?_
      cases hd
      trivial
  | managed slot statistics hook inner ih =>
    obtain ⟨hhook, hj⟩ := Provider.under_managed.mp hp
    refine Call.Neutral.get.then fun m => ?_
    split
    · exact .pure rfl nofun
    · refine (ih hj.delegate (hj.slot.le.trans hle) (hacts.imp_left And.right)).bind fun x hx => ?_
      cases x with
      | error stop => exact .pure rfl nofun
      | ok c => exact (hw.countCursor hhook hj (hx c rfl) _).mono hle
  | scripted slot script inner ih =>
    refine Call.Neutral.get.then fun m => ?_
    refine Call.Neutral.then (neutral_onScript slot fun _ => rfl) fun _ => ?_
    refine (hw.perform _ slot (hacts.imp_left fun h => h.1.onOpen _)).then fun x => ?_
    cases x with
    | error stop => exact .pure rfl nofun
    | ok =>
      refine (ih hp.2 hle (hacts.imp_left And.right)).bind fun x hx => ?_
      cases x with
      | error stop => exact .pure rfl nofun
      | ok c =>
        refine (hw.perform _ slot (hacts.imp_left fun h => h.1.afterOpen _)).then fun x => ?_
        cases x with
        | error stop => exact ((hw.dropCursor (hx c rfl)).mono hle).bind fun _ _ => .pure rfl nofun
        | ok =>
          dsimp only
          split
          · exact .pure rfl hx
          · rename_i act hact
            refine .pure rfl fun d hd => ?_
            cases hd
            exact ⟨hp.1.cursorRelease _ act hact, hx c rfl⟩

end Switches.CountsExact
end Replay
