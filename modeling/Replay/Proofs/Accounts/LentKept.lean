import Replay.Proofs.Accounts.Opening

/-!
Opening a cursor on a managed provider takes back no cursor of that provider which is lent, unless a
scripted layer calls back to a provider over another feed. A source gives its cursor back when it is
closed, and a provider closes no source but its own.
-/
namespace Replay

open Store

variable {α β γ : Type} {r : Roster} {n slot : Nat} {w : Switches α} {j : Janitor}
  {b : Nat → Option Janitor}

def Provider.feed : Provider → Nat
  | base _ _ feed => feed
  | managed _ _ _ inner => inner.feed
  | scripted _ _ inner => inner.feed

def Store.bound (m : Store α) (slot : Nat) : Option Janitor := (m.script slot).outer

/-- Scripted layers are bound to providers over the same feed only. -/
def Provider.Inward (bound : Nat → Option Janitor) : Provider → Prop
  | base .. => True
  | managed _ _ _ inner => inner.Inward bound
  | scripted slot _ inner =>
    (∀ o, bound slot = some o → o.delegate.feed = inner.feed) ∧ inner.Inward bound

/-- The source of the feed reads from no cursor of the janitor at `slot` or above. -/
def Roster.Clear (r : Roster) (slot feed : Nat) : Prop :=
  ∀ c : Cursor, r.chains[feed]? = some (some c) → c.Below slot

theorem Provider.Under.clear {p : Provider} (hp : p.Under r n) : r.Clear n p.feed := by
  induction p generalizing n with
  | base slot id feed =>
    obtain ⟨chain, hchain, hbelow⟩ := hp
    exact fun c hc => hbelow c (Option.some.inj (hchain.symm.trans hc))
  | managed slot statistics hook inner ih => exact fun c hc => (ih hp.2.2.2 c hc).mono hp.1.le
  | scripted slot script inner ih => exact ih hp.2

namespace Store

variable {m m' m'' : Store α}

structure LentKept (slot : Nat) (m m' : Store α) : Prop where
  lentCounts : m'.feeds.lentCounts slot = m.feeds.lentCounts slot
  lent : ∀ feed c, m'.feeds.lent feed = some c → m.feeds.lent feed = some c
  bound : m'.bound = m.bound

namespace LentKept

theorem refl (slot : Nat) (m : Store α) : LentKept slot m m := ⟨rfl, fun _ _ => id, rfl⟩

theorem trans (h : LentKept slot m m') (h' : LentKept slot m' m'') : LentKept slot m m'' where
  lentCounts := h'.lentCounts.trans h.lentCounts
  lent feed c hc := h.lent feed c (h'.lent feed c hc)
  bound := h'.bound.trans h.bound

theorem covers (h : LentKept slot m m') (hm : r.Covers m) : r.Covers m' :=
  hm.of_same h.lent fun other => congrFun h.bound other

end LentKept

theorem Frame.lentKept (h : Frame n m m') (hn : n ≤ slot) : LentKept slot m m' :=
  ⟨h.lentAbove slot hn, h.lent, funext h.outer⟩

def Call.KeepsLent (r : Roster) (b : Nat → Option Janitor) (slot : Nat) (f : Call α β)
    (P : β → Prop) : Prop :=
  ∀ m : Store α, r.Covers m → m.bound = b → LentKept slot m (f.run m).2 ∧ P (f.run m).1

namespace Call.KeepsLent

variable {f : Call α β} {g : β → Call α γ} {P : β → Prop} {Q : γ → Prop} {k : Nat → Nat} {l : β → Nat → Nat}

theorem pure {x : β} (hP : P x) : Call.KeepsLent r b slot (Pure.pure x : Call α β) P :=
  fun m _ _ => ⟨.refl slot m, hP⟩

theorem bind (hf : f.KeepsLent r b slot P) (hg : ∀ x, P x → (g x).KeepsLent r b slot Q) :
    (f >>= g).KeepsLent r b slot Q := by
  intro m hm hb
  obtain ⟨hlentKept, hP⟩ := hf m hm hb
  obtain ⟨hlentKept', hQ⟩ := hg _ hP _ (hlentKept.covers hm) (hlentKept.bound.trans hb)
  exact ⟨hlentKept.trans hlentKept', hQ⟩

theorem of_transfers (hf : f.Transfers r n k l P) (hn : n ≤ slot) : f.KeepsLent r b slot P := by
  intro m hm _
  obtain ⟨htransfer, hP⟩ := hf m hm
  exact ⟨htransfer.toFrame.lentKept hn, hP⟩

theorem of_neutral (hf : f.Neutral r n) (hn : n ≤ slot) : f.KeepsLent r b slot fun _ => True :=
  .of_transfers (hf.transfers 0) hn

theorem of_zero (hf : f.Neutral r 0) : f.KeepsLent r b slot fun _ => True := .of_neutral hf (Nat.zero_le _)

theorem get : (MonadState.get : Call α (Store α)).KeepsLent r b slot fun _ => True :=
  .of_zero .get

theorem onJanitor (other : Nat) (f : JanitorState → JanitorState) :
    (Store.onJanitor (α := α) other f).KeepsLent r b slot fun _ => True :=
  fun _ _ _ => ⟨⟨rfl, fun _ _ => id, rfl⟩, trivial⟩

theorem onStatistics (q : Nat) (f : Statistics → Statistics) :
    (Store.onStatistics (α := α) q f).KeepsLent r b slot fun _ => True :=
  fun _ _ _ => ⟨⟨rfl, fun _ _ => id, rfl⟩, trivial⟩

end Call.KeepsLent

theorem Call.KeepsLent.then {f : Call α β} {g : β → Call α γ} {Q : γ → Prop}
    (hf : f.KeepsLent r b slot fun _ => True) (hg : ∀ x, (g x).KeepsLent r b slot Q) :
    (f >>= g).KeepsLent r b slot Q :=
  hf.bind fun x _ => hg x

end Store

/-- The switches give back no lent cursor of the janitor, as long as what they end does not read from
one. -/
structure Switches.KeepLent (w : Switches α) (r : Roster) (b : Nat → Option Janitor) (slot : Nat) : Prop where
  countsExact : w.CountsExact r
  close : ∀ {j n}, j.Under r n → r.Clear slot j.delegate.feed → (w.close j).KeepsLent r b slot fun _ => True
  release : ∀ {j n}, j.Under r n → r.Clear slot j.delegate.feed →
    (w.release j).KeepsLent r b slot fun _ => True

namespace Switches.KeepLent

variable {p : Provider} (hw : w.KeepLent r b slot)

include hw

theorem demand (hj : j.Under r n) (hclear : r.Clear slot j.delegate.feed) :
    (w.demand j).KeepsLent r b slot fun _ => True :=
  (Call.KeepsLent.onJanitor _ _).then fun _ => hw.release hj hclear

omit hw in
theorem countCall (caller : Option Nat) (f : JanitorState → JanitorState) :
    (Store.countCall (α := α) caller f).KeepsLent r b slot fun _ => True := by
  cases caller with
  | none => exact .pure trivial
  | some other => exact .onJanitor other f

theorem closeProvider (hp : p.Under r n) (hclear : r.Clear slot p.feed) (caller : Option Nat) :
    (p.close w caller).KeepsLent r b slot fun _ => True := by
  induction p generalizing caller with
  | base other id feed =>
    refine .then (countCall caller _) fun _ => ?_
    refine .then .get fun m => ?_
    split
    · exact .pure trivial
    · refine .then (.of_zero (neutral_closeBase other)) fun _ => ?_
      refine .then (.of_zero (neutral_note _)) fun _ => ?_
      exact .pure trivial
  | managed other statistics hook inner =>
    obtain ⟨-, hj⟩ := Provider.under_managed.mp hp
    refine .then (countCall caller _) fun _ => ?_
    refine .then ((hw.close hj hclear).then fun _ => .pure trivial) fun _ => ?_
    exact .pure trivial
  | scripted other script inner ih =>
    refine .then (countCall caller _) fun _ => ?_
    refine .then .get fun m => ?_
    refine .then (.of_zero (neutral_onScript other fun _ => rfl)) fun _ => ?_
    refine .then (.of_zero ((hp.1.onClose _).neutral w other)) fun x => ?_
    split
    · exact .pure trivial
    · refine (ih hp.2 hclear none).then fun x => ?_
      split
      · exact .pure trivial
      · exact .of_zero ((hp.1.afterClose _).neutral w other)

theorem releaseProvider (hp : p.Under r n) (hclear : r.Clear slot p.feed) (caller : Option Nat) :
    (p.release w caller).KeepsLent r b slot fun _ => True := by
  induction p generalizing caller with
  | base other id feed =>
    refine .then (countCall caller _) fun _ => ?_
    refine .then (.of_zero (neutral_closeBase other)) fun _ => ?_
    refine .then (.of_neutral (hw.countsExact.closeBuffer hclear) le_rfl) fun _ => ?_
    exact .pure trivial
  | managed other statistics hook inner =>
    obtain ⟨-, hj⟩ := Provider.under_managed.mp hp
    refine .then (countCall caller _) fun _ => ?_
    refine .then ((hw.demand hj hclear).then fun _ => .pure trivial) fun _ => ?_
    exact .pure trivial
  | scripted other script inner ih =>
    refine .then (countCall caller _) fun _ => ?_
    refine .then .get fun m => ?_
    refine .then (.of_zero (neutral_onScript other fun _ => rfl)) fun _ => ?_
    refine .then (.of_zero ((hp.1.onRelease _).neutral w other)) fun x => ?_
    split
    · exact .pure trivial
    · refine (ih hp.2 hclear none).then fun x => ?_
      split
      · exact .pure trivial
      · exact .of_zero ((hp.1.afterRelease _).neutral w other)

theorem janitorClose (hj : j.Under r n) (hclear : r.Clear slot j.delegate.feed) :
    (j.close w).KeepsLent r b slot fun _ => True := by
  refine .then .get fun m => ?_
  split
  · exact .pure trivial
  · refine .then (.onJanitor _ _) fun _ => ?_
    have hdelegate : (j.closeDelegate w).KeepsLent r b slot fun _ => True := by
      refine .then (hw.closeProvider hj.delegate hclear _) fun x => ?_
      refine .then (.of_zero (neutral_record _ _ _ _)) fun _ => ?_
      refine .then (.onStatistics _ _) fun _ => ?_
      refine .then (.of_zero (neutral_note _)) fun _ => ?_
      exact .pure trivial
    refine .then hdelegate fun report => ?_
    refine .then .get fun m => ?_
    split
    · exact (hw.release hj hclear).then fun _ => .pure trivial
    · exact .pure trivial

theorem janitorRelease (hj : j.Under r n) (hclear : r.Clear slot j.delegate.feed) :
    (j.release w).KeepsLent r b slot fun _ => True := by
  refine .then .get fun m => ?_
  split
  · exact .pure trivial
  · refine .then (.onJanitor _ _) fun _ => ?_
    refine .then (hw.close hj hclear) fun report => ?_
    refine .then (hw.releaseProvider hj.delegate hclear _) fun x => ?_
    refine .then (.of_zero (neutral_record _ _ _ _)) fun _ => ?_
    refine .then .get fun _ => ?_
    refine .then (.onStatistics _ _) fun _ => ?_
    refine .then (.of_zero (neutral_note _)) fun _ => ?_
    exact .pure trivial

end Switches.KeepLent

theorem keepLent_switches (hr : r.Sorted) (slot left : Nat) :
    (switches left : Switches α).KeepLent r b slot := by
  induction left with
  | zero => exact ⟨countsExact_switches hr 0, fun _ _ => .pure trivial, fun _ _ => .pure trivial⟩
  | succ left ih => exact ⟨countsExact_switches hr (left + 1), ih.janitorClose, ih.janitorRelease⟩

namespace Switches.KeepLent

variable {c : Cursor} {hook : Hook}

section reaching

variable (hw : w.KeepLent r b slot)

include hw

theorem endOuter {other : Nat} (hclear : ∀ o, b other = some o → r.Clear slot o.delegate.feed)
    (ending : Ending) : (w.endOuter other ending).KeepsLent r b slot fun _ => True := by
  intro m hm hb
  rw [Switches.endOuter, Call.run_bind, Call.run_get]
  dsimp only
  cases houter : (m.script other).outer with
  | none => exact ⟨.refl slot m, trivial⟩
  | some o =>
    have ho := hm.outer other o houter
    have hfar := hclear o ((congrFun hb other).symm.trans houter)
    dsimp only
    rw [Call.run_bind, Call.run_get]
    dsimp only
    split
    · exact ⟨.refl slot m, trivial⟩
    · cases ending with
      | close =>
        have hclose : (discard (w.close o)).KeepsLent r b slot fun _ => True :=
          (hw.close ho hfar).then fun _ => .pure trivial
        exact hclose m hm hb
      | release =>
        have hrelease : (discard (w.demand o)).KeepsLent r b slot fun _ => True :=
          (hw.demand ho hfar).then fun _ => .pure trivial
        exact hrelease m hm hb

theorem perform {other : Nat} (hclear : ∀ o, b other = some o → r.Clear slot o.delegate.feed) (act : Act) :
    (act.perform w other).KeepsLent r b slot fun _ => True := by
  cases act with
  | outer ending => exact (hw.endOuter hclear ending).then fun _ => .pure trivial
  | _ =>
    refine .of_zero (Act.NonReentrant.neutral ?_ w other)
    exact True.intro

theorem openCursor {p : Provider} (hp : p.Under r n) (hn : n ≤ slot) (hin : p.Inward b) :
    (p.openCursor w).KeepsLent r b slot fun x => ∀ d, x = .ok d → d.Under r n := by
  induction p generalizing n with
  | base other id feed =>
    refine .then .get fun m => ?_
    split
    · exact .pure nofun
    · refine .pure fun d hd => ?_
      cases hd
      trivial
  | managed other statistics hook inner ih =>
    obtain ⟨hhook, hj⟩ := Provider.under_managed.mp hp
    refine .then .get fun m => ?_
    split
    · exact .pure nofun
    · refine (ih hj.delegate (hj.slot.le.trans hn) hin).bind fun x hx => ?_
      cases x with
      | error stop => exact .pure nofun
      | ok c => exact .of_transfers (hw.countsExact.countCursor hhook hj (hx c rfl) _) hn
  | scripted other script inner ih =>
    have hclear : ∀ o, b other = some o → r.Clear slot o.delegate.feed := by
      intro o ho
      rw [hin.1 o ho]
      exact fun c hc => (hp.2.clear c hc).mono hn
    refine .then .get fun m => ?_
    refine .then (.of_zero (neutral_onScript other fun _ => rfl)) fun _ => ?_
    refine (hw.perform hclear _).then fun x => ?_
    cases x with
    | error stop => exact .pure nofun
    | ok =>
      refine (ih hp.2 hn hin.2).bind fun x hx => ?_
      cases x with
      | error stop => exact .pure nofun
      | ok c =>
        refine (hw.perform hclear _).then fun x => ?_
        cases x with
        | error stop =>
          exact (Call.KeepsLent.of_transfers (hw.countsExact.dropCursor (hx c rfl)) hn).then fun _ =>
            .pure nofun
        | ok =>
          dsimp only
          split
          · exact .pure hx
          · rename_i act hact
            refine .pure fun d hd => ?_
            cases hd
            exact ⟨hp.1.cursorRelease _ act hact, hx c rfl⟩

end reaching

variable (hw : w.KeepLent r b j.slot) (hj : j.Under r n)

include hw hj

theorem releaseCursor {P : Cursor → Prop} {step : Call α (Outcome StreamError Unit × Cursor)}
    (hstep : step.KeepsLent r b j.slot fun x => P x.2) :
    (j.releaseCursor w step).KeepsLent r b j.slot fun x => P x.2 := by
  have hcountOut : ∀ report, (j.countOut w report).KeepsLent r b j.slot fun _ => True := by
    intro report
    refine .then .get fun m => ?_
    refine .then (.onJanitor _ _) fun _ => ?_
    refine .then .get fun m => ?_
    split
    · exact (hw.release hj hj.delegate.clear).then fun _ => .pure trivial
    · exact .pure trivial
  have hrest : Call.KeepsLent r b j.slot (do
      let x ← step
      let report ← Report.begun.record j.id .releaseCursor x.1
      return (← j.countOut w report, x.2)) fun x => P x.2 := by
    refine hstep.bind fun x hx => ?_
    refine .then (.of_zero (neutral_record _ _ _ _)) fun report => ?_
    exact (hcountOut report).then fun _ => .pure hx
  refine .then .get fun m => ?_
  split
  · exact .then (.onStatistics _ _) fun _ => hrest
  · exact hrest

theorem dropCursor (hc : c.Under r j.slot) :
    ((Cursor.managed j false c).drop w).KeepsLent r b j.slot fun _ => True := by
  unfold Cursor.drop Cursor.depth Cursor.dropLayers
  refine (hw.releaseCursor hj (.of_transfers (hw.countsExact.releaseLayers hc) le_rfl)).bind fun x hx => ?_
  exact .of_transfers (hw.countsExact.dropLayers c.depth hx.under hx.depth.le) le_rfl

omit hw hj in
theorem skip {released : Bool} (hc : c.Under r j.slot) (count : Nat) :
    ((Cursor.managed j released c).skip count : Call α (Outcome StreamError Unit × Cursor)).KeepsLent r b
      j.slot
      fun x => ∃ d, x.2 = .managed j released d ∧ d.Under r j.slot := by
  induction count generalizing c with
  | zero => exact .pure ⟨c, rfl, hc⟩
  | succ count ih =>
    have hread : ((Cursor.managed j released c).read (α := α)).KeepsLent r b j.slot
        fun x => ∃ d, x.2 = .managed j released d ∧ d.Under r j.slot := by
      intro m _ _
      have hreads := ((Cursor.managed j released c).readsTo_nextBy Feeds.endsNothing_draw (s := m.feeds)).1
      refine ⟨(Transfer.of_feeds (r := r) hreads.alike 0).toFrame.lentKept (Nat.zero_le _), ?_⟩
      cases released with
      | true => exact ⟨c, rfl, hc⟩
      | false => exact ⟨_, rfl, hc.of_bare (c.readsTo_nextBy Feeds.endsNothing_draw).2⟩
    refine hread.bind fun x hx => ?_
    obtain ⟨y, d⟩ := x
    obtain ⟨d, rfl, hd⟩ := hx
    split
    · rename_i heq
      cases heq
      exact .pure ⟨d, rfl, hd⟩
    · rename_i heq
      cases heq
      exact ih hd

theorem applyHook (hhook : hook.Wraps) (hc : c.Under r j.slot) :
    (hook.apply w j c).KeepsLent r b j.slot fun _ => True := by
  cases hook with
  | plain => exact .pure trivial
  | raw => exact hhook.elim
  | seek position => exact .pure trivial
  | skip count =>
    refine (skip hc count).bind fun x hx => ?_
    obtain ⟨y, d⟩ := x
    obtain ⟨d, rfl, hd⟩ := hx
    cases y with
    | ok => exact .pure trivial
    | error stop => exact (hw.dropCursor hj hd).then fun _ => .pure trivial
  | released =>
    simp only [Hook.apply, Cursor.release, Bool.false_eq_true, if_false, bind_assoc, pure_bind]
    refine (hw.releaseCursor hj (.of_transfers (hw.countsExact.releaseLayers hc) le_rfl)).bind fun x _ => ?_
    exact .pure trivial
  | doubled => exact hhook.elim

theorem openManaged (hhook : hook.Wraps) (hin : j.delegate.Inward b) :
    ((Provider.managed j.slot j.statistics hook j.delegate).openCursor w).KeepsLent r b j.slot
      fun _ => True := by
  refine .then .get fun m => ?_
  split
  · exact .pure trivial
  · refine (hw.openCursor hj.delegate le_rfl hin).bind fun x hx => ?_
    cases x with
    | error stop => exact .pure trivial
    | ok c =>
      have hc := hx c rfl
      refine .then (.onJanitor _ _) fun _ => ?_
      refine .then (.onStatistics _ _) fun _ => ?_
      refine .then .get fun m => ?_
      split
      · refine .then (.onStatistics _ _) fun _ => ?_
        refine (hw.releaseCursor hj (.of_transfers (hw.countsExact.releaseLayers hc) le_rfl)).bind
          fun x hx => ?_
        exact (Call.KeepsLent.of_transfers (hw.countsExact.dropCursor hx.under) le_rfl).then fun _ =>
          .pure trivial
      · exact hw.applyHook hj hhook hc

end Switches.KeepLent

end Replay
