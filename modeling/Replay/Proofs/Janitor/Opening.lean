import Replay.Opening
import Replay.Proofs.Feeds
import Replay.Proofs.Janitor.Ending

/-!
`Orderly`, the invariant of a janitor between calls: close and release_resources of the delegate were
called once or not at all, as the flags say, and released holds iff a release was demanded or the
provider is closed with no cursor open. Opening a cursor keeps it, since a janitor that was released
meanwhile counts the new cursor out again.
-/
namespace Replay

open Store

variable {α β γ : Type}

/-- The invariant of a janitor between calls. `closings` and `releasings` count its calls to the
delegate, `demands` the calls of release_resources from outside. -/
structure JanitorState.Orderly (t : JanitorState) : Prop where
  released_iff : t.released ↔ 0 < t.demands ∨ (t.closed ∧ t.openCursors = 0)
  closed : t.released → t.closed
  closings : t.closings = t.closed.toNat
  releasings : t.releasings = t.released.toNat

namespace JanitorState

variable {t t' : JanitorState}

theorem Advances.orderly (h : t.Advances t') (ht : t.Orderly) : t'.Orderly := by
  have hshut := h.shut ht.closed
  refine ⟨⟨fun hr => ?_, fun hdue => ?_⟩, hshut, ?_, ?_⟩
  · rcases h.due hr with hbefore | hdemanded | hzero
    · rcases ht.released_iff.mp hbefore with hdemanded | ⟨-, hzero⟩
      · exact .inl (hdemanded.trans_le h.demands)
      · exact .inr ⟨hshut hr, Nat.le_zero.mp (hzero ▸ h.openCursors)⟩
    · exact .inl hdemanded
    · exact .inr ⟨hshut hr, hzero⟩
  · rcases hdue with hdemanded | ⟨hclosed, hzero⟩
    · exact h.demanded (fun hd => ht.released_iff.mpr (.inl hd)) hdemanded
    · exact h.done (fun hc hz => ht.released_iff.mpr (.inr ⟨hc, hz⟩)) hclosed hzero
  · have := h.closings
    have := ht.closings
    omega
  · have := h.releasings
    have := ht.releasings
    omega

theorem orderly_new (openCursors : Nat) : Orderly { openCursors } := by
  refine ⟨?_, nofun, rfl, rfl⟩
  simp

/-- Counting a cursor keeps the invariant of a janitor that is not released. -/
theorem Orderly.count (h : t.Orderly) (hr : t.released = false) :
    Orderly { t with openCursors := t.openCursors + 1 } := by
  refine ⟨⟨fun hreleased => ?_, fun hdue => ?_⟩, h.closed, h.closings, h.releasings⟩
  · exact absurd hreleased (by simp [hr])
  · rcases hdue with hdemanded | ⟨-, hzero⟩
    · exact h.released_iff.mpr (.inl hdemanded)
    · exact absurd hzero (Nat.succ_ne_zero _)

theorem Advances.of_count (hr : t.released)
    (h : Advances { t with openCursors := t.openCursors + 1 } t')
    (hout : t'.openCursors ≤ t.openCursors) : t.Advances t' :=
  { h with
    openCursors := hout
    due := fun _ => .inl hr
    done := fun _ _ _ => h.released hr }

end JanitorState

namespace Store

def Orderly (m : Store α) : Prop := ∀ slot < m.janitors.size, (m.janitor slot).Orderly

theorem Advances.orderly {m m' : Store α} (h : m.Advances m') (hm : m.Orderly) : m'.Orderly :=
  fun slot hlt => (h.janitor slot).orderly (hm slot (h.size ▸ hlt))

theorem Orderly.of_janitors {m m' : Store α} (hm : m.Orderly) (h : m'.janitors = m.janitors) :
    m'.Orderly := by
  intro slot hlt
  rw [h] at hlt
  rw [janitor, h]
  exact hm slot hlt

theorem Orderly.count {m : Store α} {slot : Nat} (hm : m.Orderly)
    (hr : (m.janitor slot).released = false) :
    (m.change slot fun t => { t with openCursors := t.openCursors + 1 }).Orderly := by
  intro other hlt
  rw [size_change] at hlt
  by_cases hne : slot = other
  · subst hne
    rw [janitor_change_self hlt]
    exact (hm slot hlt).count hr
  · rw [janitor_change_of_ne hne]
    exact hm other hlt

theorem Advances.endings {m m' : Store α} (h : m.Advances m') : m'.endings = m.endings := by
  rw [Store.endings, Store.endings, h.size, h.feeds.size]

/-- Keeps the invariant and adds nothing that can be ended. -/
def Call.PreservesEndings (n : Nat) (f : Call α β) : Prop :=
  ∀ m : Store α, m.endings ≤ n → m.Orderly → (f.run m).2.endings ≤ n ∧ (f.run m).2.Orderly

namespace Call

variable {n : Nat}

theorem Ends.keeps {f : Call α β} (hf : f.Ends n) : f.PreservesEndings n := by
  intro m hn hm
  have h := hf m (m.pending_le_endings.trans hn)
  exact ⟨h.endings.trans_le hn, h.orderly hm⟩

theorem PreservesEndings.bind {f : Call α β} {g : β → Call α γ} (hf : f.PreservesEndings n)
    (hg : ∀ r, (g r).PreservesEndings n) :
    (f >>= g).PreservesEndings n := by
  intro m hn hm
  obtain ⟨hn', hm'⟩ := hf m hn hm
  exact hg _ _ hn' hm'

theorem keeps_pure (r : β) : Call.PreservesEndings n (pure r : Call α β) := (Ends.pure r).keeps

theorem PreservesEndings.of_janitors {f : Call α β} (hj : ∀ m, (f.run m).2.janitors = m.janitors)
    (hf : ∀ m, (f.run m).2.feeds.cells.size = m.feeds.cells.size) : f.PreservesEndings n := by
  intro m hn hm
  refine ⟨?_, hm.of_janitors (hj m)⟩
  rw [endings, hj, hf]
  exact hn

end Call
end Store

variable {w : Switches α} {n : Nat}

theorem Cursor.keeps_read (c : Cursor) : (c.read (α := α)).PreservesEndings n :=
  .of_janitors (fun _ => rfl) fun _ => c.size_nextBy Feeds.sizePreserving_draw rfl

theorem Cursor.keeps_skip (count : Nat) (c : Cursor) : (c.skip (α := α) count).PreservesEndings n := by
  induction count generalizing c with
  | zero => exact Call.keeps_pure _
  | succ count ih =>
    refine .bind c.keeps_read fun r => ?_
    rcases r with ⟨(_ | _) | _, c'⟩
    · exact ih c'
    · exact Call.keeps_pure _
    · exact ih c'

theorem Switches.Suffice.applyHook (hw : w.Suffice n) (j : Janitor) (c : Cursor) (hook : Hook) :
    (hook.apply w j c).PreservesEndings n := by
  cases hook with
  | skip count =>
    refine .bind (Cursor.keeps_skip count _) fun r => ?_
    rcases r with ⟨_ | _, c'⟩
    · exact .bind (hw.dropCursor c').keeps fun _ => Call.keeps_pure _
    · exact Call.keeps_pure _
  | released => exact .bind (hw.releaseLayers _).keeps fun _ => Call.keeps_pure _
  | plain => exact Call.keeps_pure _
  | raw => exact Call.keeps_pure _
  | seek position => exact Call.keeps_pure _
  | doubled => exact Call.keeps_pure _

/-- The part of `open_cursor` after the delegate's own: the cursor is counted, and counted out again if
the provider was released meanwhile. -/
def Janitor.countCursor (w : Switches α) (j : Janitor) (hook : Hook) (c : Cursor) (e : StreamError) :
    Call α (Outcome StreamError Cursor) := do
  onJanitor j.slot fun t => { t with openCursors := t.openCursors + 1 }
  onStatistics j.statistics (·.openCursor)
  if ((← get).janitor j.slot).released then
    onStatistics j.statistics (·.closeCursors 1)
    let (_, c) ← j.releaseCursor w (c.release w)
    c.drop w
    return .raise e
  else hook.apply w j c

namespace Provider

variable {m : Store α} {slot q : Nat} {inner : Provider}

theorem run_openCursor_of_closed (hclosed : (m.janitor slot).closed) (w : Switches α) (hook : Hook) :
    ((managed slot q hook inner).openCursor w).run m = (.raise (.providerClosed inner.id), m) := by
  rw [openCursor, Call.run_bind, Call.run_get]
  dsimp only
  rw [hclosed]
  rfl

theorem run_openCursor_of_open (hopen : (m.janitor slot).closed = false) (w : Switches α) (hook : Hook) :
    ((managed slot q hook inner).openCursor w).run m =
      match (inner.openCursor w).run m with
      | (.error stop, m') => (.error stop, m')
      | (.ok c, m') =>
        (Janitor.countCursor w ⟨slot, q, inner⟩ hook c (.providerClosed inner.id)).run m' := by
  rw [openCursor, Call.run_bind, Call.run_get]
  dsimp only
  rw [hopen]
  simp only [Bool.false_eq_true, if_false, Call.run_bind]
  rcases (inner.openCursor w).run m with ⟨stop | c, m'⟩
  · rfl
  · rfl

end Provider

theorem Switches.Suffice.countCursor (hw : w.Suffice n) (j : Janitor) (c : Cursor) (hook : Hook)
    (e : StreamError) : (j.countCursor w hook c e).PreservesEndings n := by
  intro m hn hm
  rcases hrun : (onStatistics j.statistics (·.openCursor)).run
    (m.change j.slot fun t => { t with openCursors := t.openCursors + 1 }) with ⟨u, m'⟩
  obtain ⟨hjanitors, hfeeds⟩ : m'.janitors =
      (m.change j.slot fun t => { t with openCursors := t.openCursors + 1 }).janitors ∧
      m'.feeds = m.feeds := by
    cases hrun
    exact ⟨rfl, rfl⟩
  have hcounted : (m.change j.slot fun t => { t with openCursors := t.openCursors + 1 }).Advances
      m' := .of_janitors hjanitors (hfeeds ▸ .refl _)
  have hjanitor : m'.janitor j.slot =
      (m.change j.slot fun t => { t with openCursors := t.openCursors + 1 }).janitor j.slot := by
    rw [Store.janitor, hjanitors, Store.janitor]
  have hn' : m'.endings ≤ n := by
    rw [hcounted.endings, endings, size_change]
    exact hn
  have hreleased : (m'.janitor j.slot).released = (m.janitor j.slot).released := by
    rw [hjanitor]
    exact janitor_change_congr fun _ => rfl
  simp only [Janitor.countCursor, Call.run_bind, run_onJanitor, hrun, Call.run_get, hreleased]
  cases hr : (m.janitor j.slot).released with
  | true =>
    have hout : Call.CountsOut n j.slot (do
        onStatistics j.statistics (·.closeCursors 1)
        let (_, c) ← j.releaseCursor w (c.release w)
        c.drop w
        return (.raise e : Outcome StreamError Cursor)) := by
      refine .after (ends_onStatistics _ _) fun _ => ?_
      refine .before (hw.releaseCursor j (hw.releaseLayers c)) fun r => ?_
      refine .bind (hw.dropCursor r.2) fun _ => ?_
      exact .pure _
    obtain ⟨h, hle⟩ := hout m' (m'.pending_le_endings.trans hn')
    have hall := (hcounted.trans h).of_change fun hlt h => .of_count hr h (hle.trans (by
      rw [hjanitor, janitor_change_self hlt]
      exact le_rfl))
    exact ⟨hall.endings.trans_le hn, hall.orderly hm⟩
  | false =>
    exact hw.applyHook j c hook m' hn' ((hm.count hr).of_janitors hjanitors)

theorem Switches.Suffice.openCursor (hw : w.Suffice n) (p : Provider) :
    (p.openCursor w).PreservesEndings n := by
  induction p with
  | base slot id feed =>
    refine .bind Call.Ends.get.keeps fun m => ?_
    split
    · exact Call.keeps_pure _
    · exact Call.keeps_pure _
  | managed slot statistics hook inner ih =>
    refine .bind Call.Ends.get.keeps fun m => ?_
    split
    · exact Call.keeps_pure _
    · refine .bind ih fun r => ?_
      cases r with
      | error stop => exact Call.keeps_pure _
      | ok c => exact hw.countCursor ⟨slot, statistics, inner⟩ c hook _
  | scripted slot script inner ih =>
    refine .bind Call.Ends.get.keeps fun m => ?_
    refine .bind (ends_onScript slot _).keeps fun _ => ?_
    refine .bind (hw.perform slot _).keeps fun r => ?_
    cases r with
    | error stop => exact Call.keeps_pure _
    | ok =>
      refine .bind ih fun r => ?_
      cases r with
      | error stop => exact Call.keeps_pure _
      | ok c =>
        refine .bind (hw.perform slot _).keeps fun r => ?_
        cases r with
        | error stop => exact .bind (hw.dropCursor c).keeps fun _ => Call.keeps_pure _
        | ok =>
          dsimp only
          split
          · exact Call.keeps_pure _
          · exact Call.keeps_pure _

end Replay
