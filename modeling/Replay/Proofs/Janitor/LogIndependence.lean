import Replay.Proofs.Towers.Sharing

/-!
Teardown reads neither the log nor the statistics. From stores that agree otherwise it has the same
results and leads to stores that agree otherwise.
-/
namespace Replay

open Store

variable {α β γ : Type}

def Store.Call.Congr (R : Store α → Store α → Prop) (f : Call α β) : Prop := f.Along R f

/-- A relation under which everything teardown reads is equal, and which every update it makes
preserves. -/
structure Store.TeardownCongr (R : Store α → Store α → Prop) : Prop where
  cells : ∀ {m m'}, R m m' → m.feeds.SameCells m'.feeds
  bases : ∀ {m m'}, R m m' → m.closedBases = m'.closedBases
  janitors : ∀ {m m'}, R m m' → m.janitors = m'.janitors
  scripts : ∀ {m m'}, R m m' → m.scripts = m'.scripts
  note : ∀ e, (Store.note e).Congr R
  cell : ∀ feed f, Call.Congr R (modify fun m => { m with feeds := m.feeds.modify feed f } : Call α Unit)
  onJanitor : ∀ slot f, (Store.onJanitor slot f).Congr R
  onScript : ∀ slot f, (Store.onScript slot f).Congr R
  closeBase : ∀ slot, (Store.closeBase slot).Congr R
  newProviderId : Store.newProviderId.Congr R
  strikeProvider : ∀ q, (Store.onStatistics q (·.closeProvider)).Congr R
  strikeCursors : ∀ q count, (Store.onStatistics q (·.closeCursors count)).Congr R

structure Switches.TeardownCongr (w : Switches α) (R : Store α → Store α → Prop) : Prop
    extends Store.TeardownCongr R where
  close : ∀ j, (w.close j).Congr R
  release : ∀ j, (w.release j).Congr R
  closeBuffer : ∀ feed, (w.closeBuffer feed).Congr R

variable {R : Store α → Store α → Prop} {w : Switches α} {m m' : Store α}

namespace Store.Call.Congr

theorem pure (x : β) : Call.Congr R (Pure.pure x : Call α β) := Along.pure x

theorem bind {f : Call α β} {g : β → Call α γ} (hf : f.Congr R) (hg : ∀ x, (g x).Congr R) :
    (f >>= g).Congr R := Along.bind hf hg

end Store.Call.Congr

namespace Store.TeardownCongr

variable (hR : TeardownCongr R)

include hR

theorem janitor (h : R m m') (slot : Nat) : m.janitor slot = m'.janitor slot := by
  rw [Store.janitor, hR.janitors h, Store.janitor]

theorem script (h : R m m') (slot : Nat) : m.script slot = m'.script slot := by
  rw [Store.script, hR.scripts h, Store.script]

theorem baseClosed (h : R m m') (slot : Nat) : m.baseClosed slot = m'.baseClosed slot := by
  rw [Store.baseClosed, hR.bases h, Store.baseClosed]

theorem record (r : Report) (provider : ProviderId) (stage : Stage)
    (outcome : Outcome StreamError Unit) : (r.record provider stage outcome).Congr R := by
  unfold Report.record
  split
  · exact .pure _
  · exact .bind (hR.note _) fun _ => .pure _

end Store.TeardownCongr

namespace Switches.TeardownCongr

theorem demand (hw : w.TeardownCongr R) (j : Janitor) : (w.demand j).Congr R :=
  .bind (hw.onJanitor _ _) fun _ => hw.release j

theorem endOuter (hw : w.TeardownCongr R) (slot : Nat) (ending : Ending) :
    (w.endOuter slot ending).Congr R := by
  refine .get fun m m' h => ?_
  rw [hw.script h slot]
  split
  · exact .pure _
  · refine .get fun m m' h => ?_
    rw [hw.janitor h]
    split
    · exact .pure _
    · cases ending with
      | close => exact .bind (hw.close _) fun _ => .pure _
      | release => exact .bind (hw.demand _) fun _ => .pure _

theorem perform (hw : w.TeardownCongr R) (slot : Nat) (act : Act) : (act.perform w slot).Congr R := by
  cases act with
  | pass => exact .pure _
  | outer ending => exact .bind (hw.endOuter slot ending) fun _ => .pure _
  | panic p => exact .pure _
  | fail cue =>
    refine .bind ?_ fun _ => .pure _
    cases cue with
    | fixed e => exact .pure _
    | providerClosed => exact .bind hw.newProviderId fun _ => .pure _

theorem countCall (hw : w.TeardownCongr R) (caller : Option Nat) (f : JanitorState → JanitorState) :
    (Store.countCall caller f : Call α Unit).Congr R := by
  cases caller with
  | none => exact .pure _
  | some slot => exact hw.onJanitor slot f

theorem closeProvider (hw : w.TeardownCongr R) (caller : Option Nat) (p : Provider) :
    (p.close w caller).Congr R := by
  induction p generalizing caller with
  | base slot id feed =>
    refine .bind (hw.countCall caller _) fun _ => ?_
    refine .get fun m m' h => ?_
    rw [hw.baseClosed h slot]
    split
    · exact .pure _
    · refine .bind (hw.closeBase slot) fun _ => ?_
      refine .bind (hw.note _) fun _ => ?_
      exact .pure _
  | managed slot statistics hook inner =>
    refine .bind (hw.countCall caller _) fun _ => ?_
    refine .bind (.bind (hw.close _) fun _ => .pure _) fun _ => ?_
    exact .pure _
  | scripted slot script inner ih =>
    refine .bind (hw.countCall caller _) fun _ => ?_
    refine .get fun m m' h => ?_
    rw [hw.script h slot]
    refine .bind (hw.onScript slot _) fun _ => ?_
    refine .bind (hw.perform slot _) fun x => ?_
    split
    · exact .pure _
    · refine .bind (ih none) fun x => ?_
      split
      · exact .pure _
      · exact hw.perform slot _

theorem releaseProvider (hw : w.TeardownCongr R) (caller : Option Nat) (p : Provider) :
    (p.release w caller).Congr R := by
  induction p generalizing caller with
  | base slot id feed =>
    refine .bind (hw.countCall caller _) fun _ => ?_
    refine .bind (hw.closeBase slot) fun _ => ?_
    refine .bind (hw.closeBuffer feed) fun _ => ?_
    exact .pure _
  | managed slot statistics hook inner =>
    refine .bind (hw.countCall caller _) fun _ => ?_
    refine .bind (.bind (hw.demand _) fun _ => .pure _) fun _ => ?_
    exact .pure _
  | scripted slot script inner ih =>
    refine .bind (hw.countCall caller _) fun _ => ?_
    refine .get fun m m' h => ?_
    rw [hw.script h slot]
    refine .bind (hw.onScript slot _) fun _ => ?_
    refine .bind (hw.perform slot _) fun x => ?_
    split
    · exact .pure _
    · refine .bind (ih none) fun x => ?_
      split
      · exact .pure _
      · exact hw.perform slot _

theorem countOut (hw : w.TeardownCongr R) (j : Janitor) (report : Report) :
    (j.countOut w report).Congr R := by
  refine .get fun m m' h => ?_
  refine .bind (hw.onJanitor _ _) fun _ => ?_
  refine .get fun m₁ m₁' h₁ => ?_
  rw [hw.janitor h, hw.janitor h₁]
  split
  · exact .bind (hw.release j) fun _ => .pure _
  · exact .pure _

theorem releaseCursor (hw : w.TeardownCongr R) (j : Janitor)
    {step : Call α (Outcome StreamError Unit × Cursor)} (hstep : step.Congr R) :
    (j.releaseCursor w step).Congr R := by
  have hrest : Call.Congr R (do
      let x ← step
      let report ← Report.begun.record j.id .releaseCursor x.1
      return (← j.countOut w report, x.2)) := by
    refine .bind hstep fun _ => ?_
    refine .bind (hw.record _ _ _ _) fun _ => ?_
    refine .bind (hw.countOut j _) fun _ => ?_
    exact .pure _
  refine .get fun m m' h => ?_
  rw [hw.janitor h]
  split
  · exact .bind (hw.strikeCursors _ _) fun _ => hrest
  · exact hrest

theorem releaseLayers (hw : w.TeardownCongr R) (c : Cursor) : (c.release w).Congr R := by
  induction c with
  | plain feed provider head => exact .pure _
  | managed janitor released inner ih =>
    unfold Cursor.release
    split
    · exact .pure _
    · exact .bind (hw.releaseCursor janitor ih) fun _ => .pure _
  | watched slot act inner ih =>
    refine .bind (hw.perform slot act) fun x => ?_
    split
    · exact .pure _
    · exact .bind ih fun _ => .pure _

theorem closeLayers (hw : w.TeardownCongr R) (c : Cursor) : (c.close w).Congr R := by
  induction c with
  | plain feed provider head => exact .pure _
  | managed janitor released inner ih =>
    unfold Cursor.close
    split
    · exact .pure _
    · refine .bind ih fun inner => ?_
      refine .bind (hw.releaseCursor janitor (hw.releaseLayers inner)) fun _ => ?_
      exact .pure _
  | watched slot act inner ih => exact .bind ih fun _ => .pure _

theorem dropLayers (hw : w.TeardownCongr R) (layers : Nat) (c : Cursor) :
    (c.dropLayers w layers).Congr R := by
  induction layers generalizing c with
  | zero => exact .pure _
  | succ layers ih =>
    cases c with
    | plain feed provider head => exact .pure _
    | managed janitor released inner =>
      unfold Cursor.dropLayers
      split
      · exact ih inner
      · exact .bind (hw.releaseCursor janitor (hw.releaseLayers inner)) fun x => ih x.2
    | watched slot act inner => exact ih inner

theorem closeSourceLayers (hw : w.TeardownCongr R) (feed : Nat) (source : Source α) :
    (source.close w feed).Congr R := by
  refine .bind (hw.cell feed _) fun _ => ?_
  cases source with
  | chain c =>
    refine .bind (hw.closeLayers c) fun _ => ?_
    exact .pure _
  | _ => exact .pure _

theorem dropSourceLayers (hw : w.TeardownCongr R) (source : Source α) : (source.drop w).Congr R := by
  cases source with
  | chain c => exact hw.dropLayers c.depth c
  | _ => exact .pure _

theorem closeSource (hw : w.TeardownCongr R) (feed : Nat) : (Store.closeSource w feed).Congr R := by
  refine .get fun m m' h => ?_
  rw [(hw.cells h).source? feed]
  split
  · exact .pure _
  · refine .bind (hw.closeSourceLayers feed _) fun _ => ?_
    refine .bind (hw.cell feed _) fun _ => ?_
    exact .pure _

theorem dropSource (hw : w.TeardownCongr R) (feed : Nat) : (Store.dropSource w feed).Congr R := by
  refine .get fun m m' h => ?_
  rw [(hw.cells h).source? feed]
  split
  · exact .pure _
  · exact .bind (hw.cell feed _) fun _ => hw.dropSourceLayers _

theorem closeOpenBuffer (hw : w.TeardownCongr R) (feed : Nat) : (Store.closeBuffer w feed).Congr R := by
  refine .get fun m m' h => ?_
  rw [(hw.cells h).buffer? feed]
  split
  · exact .pure _
  · split
    · exact .pure _
    · refine .bind (hw.cell feed _) fun _ => ?_
      refine .bind (hw.note _) fun _ => ?_
      split
      · refine .bind (hw.closeSource feed) fun _ => ?_
        refine .bind (hw.dropSource feed) fun _ => ?_
        exact .pure _
      · refine .bind (.pure _) fun _ => ?_
        refine .bind (hw.dropSource feed) fun _ => ?_
        exact .pure _

theorem closeDelegate (hw : w.TeardownCongr R) (j : Janitor) : (j.closeDelegate w).Congr R := by
  refine .bind (hw.closeProvider _ _) fun _ => ?_
  refine .bind (hw.record _ _ _ _) fun _ => ?_
  refine .bind (hw.strikeProvider _) fun _ => ?_
  refine .bind (hw.note _) fun _ => ?_
  exact .pure _

theorem releaseDelegate (hw : w.TeardownCongr R) (j : Janitor) (report : Report) :
    (j.releaseDelegate w report).Congr R := by
  refine .bind (hw.releaseProvider _ _) fun _ => ?_
  refine .bind (hw.record _ _ _ _) fun report => ?_
  refine .get fun m m' h => ?_
  rw [hw.janitor h]
  refine .bind (hw.strikeCursors _ _) fun _ => ?_
  refine .bind (hw.note _) fun _ => ?_
  exact .pure _

theorem closeJanitor (hw : w.TeardownCongr R) (j : Janitor) : (j.close w).Congr R := by
  refine .get fun m m' h => ?_
  rw [hw.janitor h]
  split
  · exact .pure _
  · refine .bind (hw.onJanitor _ _) fun _ => ?_
    refine .bind (hw.closeDelegate j) fun report => ?_
    refine .get fun m m' h => ?_
    rw [hw.janitor h]
    split
    · exact .bind (hw.release j) fun _ => .pure _
    · exact .pure _

theorem releaseJanitor (hw : w.TeardownCongr R) (j : Janitor) : (j.release w).Congr R := by
  refine .get fun m m' h => ?_
  rw [hw.janitor h]
  split
  · exact .pure _
  · refine .bind (hw.onJanitor _ _) fun _ => ?_
    refine .bind (hw.close j) fun _ => ?_
    exact hw.releaseDelegate j _

end Switches.TeardownCongr

theorem teardownCongr_switches (hR : TeardownCongr R) (left : Nat) :
    (switches left : Switches α).TeardownCongr R := by
  induction left with
  | zero => exact ⟨hR, fun _ => .pure _, fun _ => .pure _, fun _ => .pure _⟩
  | succ left ih => exact ⟨hR, ih.closeJanitor, ih.releaseJanitor, ih.closeOpenBuffer⟩

namespace Store

def withoutLog (m : Store α) : Store α := { m with feeds := { m.feeds with log := #[] } }

def SameButLog (m m' : Store α) : Prop := m.withoutLog = m'.withoutLog

namespace SameButLog

theorem read (h : m.SameButLog m') (f : Store α → β) (hf : ∀ m, f m.withoutLog = f m) : f m = f m' :=
  calc f m
      _ = f m.withoutLog := (hf m).symm
      _ = f m'.withoutLog := congrArg f h
      _ = f m' := hf m'

theorem map (h : m.SameButLog m') (f : Store α → Store α)
    (hf : ∀ m, (f m.withoutLog).withoutLog = (f m).withoutLog) :
    (f m).SameButLog (f m') := h.read (fun m => (f m).withoutLog) hf

theorem modify (f : Store α → Store α) (hf : ∀ m, (f m.withoutLog).withoutLog = (f m).withoutLog) :
    Call.Congr SameButLog (modify f : Call α Unit) := fun _ _ h => ⟨rfl, h.map f hf⟩

end SameButLog

theorem teardownCongr_log : TeardownCongr (SameButLog (α := α)) where
  cells h := h.read (fun m => m.feeds.cells) fun _ => rfl
  bases h := h.read closedBases fun _ => rfl
  janitors h := h.read janitors fun _ => rfl
  scripts h := h.read scripts fun _ => rfl
  note _ := SameButLog.modify _ fun _ => rfl
  cell _ _ := SameButLog.modify _ fun _ => rfl
  onJanitor _ _ := SameButLog.modify _ fun _ => rfl
  onScript _ _ := SameButLog.modify _ fun _ => rfl
  closeBase _ := SameButLog.modify _ fun _ => rfl
  newProviderId _ _ h := ⟨h.read (fun m => (⟨m.nextProvider⟩ : ProviderId)) fun _ => rfl,
    h.map (fun m => { m with nextProvider := m.nextProvider + 1 }) fun _ => rfl⟩
  strikeProvider _ := SameButLog.modify _ fun _ => rfl
  strikeCursors _ _ := SameButLog.modify _ fun _ => rfl

/-- The statistics at `p` have one open cursor less in the second store. -/
def OneCursorLess (p : Nat) (m m' : Store α) : Prop := m' = m.charge p (·.closeCursors 1)

namespace OneCursorLess

variable {p : Nat}

theorem modify {f : Store α → Store α}
    (hf : ∀ m : Store α, f (m.charge p (·.closeCursors 1)) = (f m).charge p (·.closeCursors 1)) :
    Call.Congr (OneCursorLess p) (modify f : Call α Unit) := by
  rintro m _ rfl
  exact ⟨rfl, hf m⟩

theorem onStatistics {f : Statistics → Statistics} (q : Nat)
    (hf : ∀ s, f (s.closeCursors 1) = (f s).closeCursors 1) : (Store.onStatistics q f).Congr
    (OneCursorLess (α := α) p) :=
  modify fun _ => charge_charge hf

end OneCursorLess

theorem teardownCongr_oneCursorLess (p : Nat) : TeardownCongr (OneCursorLess (α := α) p) where
  cells := by rintro m _ rfl; rfl
  bases := by rintro m _ rfl; rfl
  janitors := by rintro m _ rfl; rfl
  scripts := by rintro m _ rfl; rfl
  note _ := OneCursorLess.modify fun _ => rfl
  cell _ _ := OneCursorLess.modify fun _ => rfl
  onJanitor _ _ := OneCursorLess.modify fun _ => rfl
  onScript _ _ := OneCursorLess.modify fun _ => rfl
  closeBase _ := OneCursorLess.modify fun _ => rfl
  newProviderId := by
    rintro m _ rfl
    exact ⟨rfl, rfl⟩
  strikeProvider q := OneCursorLess.onStatistics q fun s => (s.closeCursors_closeProvider 1).symm
  strikeCursors q count := OneCursorLess.onStatistics q fun s => s.closeCursors_comm 1 count

end Store
end Replay
