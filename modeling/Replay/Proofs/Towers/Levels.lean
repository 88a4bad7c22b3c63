import Replay.Proofs.Hosting.Undisturbed
import Replay.Proofs.Towers.ProviderOps
import Replay.Proofs.World.Registry

/-!
Towers of managed providers, each wrapping the next, over one base. The users of the outermost provider
and its cursors observe a single managed provider, and every level closes and releases its delegate
exactly when the single one does.
-/
namespace Replay

open Store

variable {α : Type} {r r' : Roster} {n : Nat}

theorem Provider.innermost_of_wrapped? {p : Provider} (h : p.wrapped? = none) : p.innermost = (p, 0) := by
  cases p with
  | base slot id feed => rfl
  | managed slot statistics hook inner => cases h
  | scripted slot script inner =>
    unfold innermost
    unfold wrapped? at h
    split
    · rfl
    · rename_i hleaf
      simp [hleaf] at h

/-- A tower over `base` with the janitors of its levels, outermost first. -/
inductive Provider.Tower (base : Provider) : Provider → List Janitor → Prop
  | base : Tower base base []
  | wrap {p : Provider} {levels : List Janitor} (h : Tower base p levels) (slot statistics : Nat) :
      Tower base (.managed slot statistics .plain p) (⟨slot, statistics, p⟩ :: levels)

namespace Provider.Tower

variable {base p : Provider} {levels : List Janitor}

theorem id_eq (h : Tower base p levels) : p.id = base.id := by
  induction h with
  | base => rfl
  | wrap h slot statistics ih => exact ih

theorem id_level (h : Tower base p levels) : ∀ l ∈ levels, l.id = base.id := by
  induction h with
  | base => nofun
  | wrap h slot statistics ih =>
    intro l hl
    rcases List.mem_cons.mp hl with rfl | hl
    · exact h.id_eq
    · exact ih l hl

theorem innermost (h : Tower base p levels) :
    p.innermost = (base.innermost.1, base.innermost.2 + levels.length) := by
  induction h with
  | base => rfl
  | wrap h slot statistics ih =>
    rw [Provider.innermost, ih]
    rfl

theorem slot_lt (h : Tower base p levels) (hp : p.Under r n) : ∀ l ∈ levels, l.slot < n := by
  induction h generalizing n with
  | base => nofun
  | wrap h slot statistics ih =>
    intro l hl
    rcases List.mem_cons.mp hl with rfl | hl
    · exact hp.1
    · exact (ih hp.2.2.2 l hl).trans hp.1

end Provider.Tower

/-- Wraps `base` once for each of the statistics, the first outermost. -/
def Store.raise (base : Provider) : List Nat → Call α Provider
  | [] => pure base
  | q :: qs => do addManaged q .plain (← raise base qs)

/-- The standing of a janitor, with the calls it has made to its delegate. -/
def JanitorState.progress (t : JanitorState) : Standing × Nat × Nat := (t.standing, t.closings, t.releasings)

theorem JanitorState.Orderly.progress_eq {t t' : JanitorState} (h : t.Orderly) (h' : t'.Orderly)
    (hs : t.standing = t'.standing) : t.progress = t'.progress := by
  have hclosed : t.closed = t'.closed := congrArg Standing.closed hs
  have hreleased : t.released = t'.released := congrArg Standing.released hs
  rw [progress, progress, hs, h.closings, h'.closings, h.releasings, h'.releasings, hclosed, hreleased]

theorem Store.janitor_addManaged (q : Nat) (inner : Provider) (m : Store α) (slot : Nat) :
    ((addManaged q .plain inner).run m).2.janitor slot =
      if slot = m.janitors.size then {} else m.janitor slot :=
  Invariant.janitor_push (m := m.charge q (·.openProvider)) slot

theorem Store.size_lt_addManaged (m : Store α) (q : Nat) (inner : Provider) :
    m.janitors.size < ((addManaged q .plain inner).run m).2.janitors.size :=
  (Nat.lt_succ_self _).trans_eq (Array.size_push ..).symm

theorem Store.shares_addManaged {m : Store α} {q : Nat} {inner : Provider}
    (hm : r.Covers ((addManaged q .plain inner).run m).2) :
    Shares r m.janitors.size ((addManaged q .plain inner).run m).2 m where
  cells := rfl
  bases := rfl
  scripts := rfl
  ids := rfl
  size := (size_lt_addManaged m q inner).le
  size' := le_rfl
  janitors slot hslot := by rw [janitor_addManaged, if_neg (Nat.ne_of_lt hslot)]
  covers := hm

namespace World

section inert

variable {w : World α}

theorem inert_makeBase {config : Config} {source : Source α} {m : Store α} {p : Provider}
    (hp : ((makeBase config source).run m).1 = some p) : p.Inert := by
  rw [run_makeBase] at hp
  split at hp
  · cases hp
  · cases hp
    trivial

theorem inert_manageProvider {manager : Nat} {inner p : Provider} {context : String} {m : Store α}
    (hinner : inner.Inert) (hp : ((Manager.manageProvider manager inner context).run m).1 = some p) :
    p.Inert := by
  cases ht : m.manager? manager with
  | none =>
    rw [Manager.run_manageProvider_none ht] at hp
    cases hp
  | some t =>
    rw [Manager.run_manageProvider ht] at hp
    cases hp
    exact ⟨rfl, hinner⟩

theorem inert_makeManaged {manager : Nat} {t : ManagerState} {context : String} {source : Source α}
    {m : Store α} {p : Provider} (ht : m.manager? manager = some t)
    (hp : ((makeManaged manager context source).run m).1 = some p) : p.Inert := by
  rw [run_makeManaged ht] at hp
  split at hp
  · cases hp
  · rw [Call.run_bind] at hp
    exact inert_manageProvider (by trivial) hp

theorem inert_append {x : Option Provider} (hw : ∀ p ∈ w.providers, p.Inert)
    (hp : ∀ p, x = some p → p.Inert) : ∀ p ∈ w.providers ++ x.toList, p.Inert := by
  intro p hmem
  rcases List.mem_append.mp hmem with hmem | hmem
  · exact hw p hmem
  · exact hp p (Option.mem_toList.mp hmem)

theorem inert_perform (hw : ∀ p ∈ w.providers, p.Inert) (op : ClientOp α) :
    ∀ p ∈ (w.perform op).providers, p.Inert := by
  have hstep := w.step op
  generalize w.perform op = after at hstep ⊢
  cases hstep with
  | addBase config source w' hsource =>
    rw [← (same_of_source? hsource).2.1] at hw
    exact inert_append hw fun p => inert_makeBase
  | addScripted script nonReentrant inner hinner =>
    refine inert_append (x := some _) hw fun p hp => ?_
    cases hp
    exact ⟨nonReentrant, hw inner (List.mem_of_getElem? hinner)⟩
  | addManaged q inner hinner hq =>
    refine inert_append (x := some _) hw fun p hp => ?_
    cases hp
    exact ⟨rfl, hw inner (List.mem_of_getElem? hinner)⟩
  | manage manager context t source w' ht hsource =>
    obtain ⟨hstore, hproviders, -⟩ := same_of_source? hsource
    rw [← hstore] at ht
    rw [← hproviders] at hw
    exact inert_append hw fun p => inert_makeManaged ht
  | manageProvider manager context inner hinner =>
    exact inert_append hw fun p => inert_manageProvider (hw inner (List.mem_of_getElem? hinner))
  | _ => exact hw

theorem inert_run (hw : ∀ p ∈ w.providers, p.Inert) (ops : List (ClientOp α)) :
    ∀ p ∈ (w.run ops).providers, p.Inert := by
  induction ops generalizing w with
  | nil => exact hw
  | cons op ops ih => exact ih (inert_perform hw op)

end inert

/-- A world with a tower over a provider of an earlier world. -/
def towerWorld (m : Store α) (base : Provider) (qs : List Nat) : World α :=
  hosting ((raise base qs).run m).2 ((raise base qs).run m).1

/-- The world of a tower against the world of a single managed provider over the same base. -/
structure AsOne (levels : List Janitor) (j : Janitor) (w single : World α) : Prop where
  providerReply : ∀ x, w.providerReply x = single.providerReply x
  views : w.views = single.views
  levels : ∀ l ∈ levels, (w.store.janitor l.slot).progress = (single.store.janitor j.slot).progress
  closings : (single.store.janitor j.slot).closings ≤ 1
  releasings : (single.store.janitor j.slot).releasings ≤ 1
  cells : w.store.feeds.SameCells single.store.feeds
  bases : w.store.closedBases = single.store.closedBases
  scripts : w.store.scripts = single.store.scripts

variable {base p : Provider} {j k o : Janitor} {levels : List Janitor} {w w' single : World α}

theorem AsOne.refl (w : World α) (horder : w.store.Orderly) (hj : j.slot < w.store.janitors.size) :
    AsOne [j] j w w where
  providerReply _ := rfl
  views := rfl
  levels l hl := by rw [List.mem_singleton.mp hl]
  closings := by
    rw [(horder j.slot hj).closings]
    exact Bool.toNat_le _
  releasings := by
    rw [(horder j.slot hj).releasings]
    exact Bool.toNat_le _
  cells := rfl
  bases := rfl
  scripts := rfl

theorem AsOne.wrap (h : AsOne (j :: levels) k w' single) (ho : o.Over r j) (hr : r.Sorted)
    (hs : Stacked r o j w w') (hslots : ∀ l ∈ j :: levels, l.slot < o.slot)
    (horder : w.store.Orderly) (horder' : w'.store.Orderly) (hlt : o.slot < w.store.janitors.size) :
    AsOne (o :: j :: levels) k w single where
  providerReply x := (hs.step ho hr x).1.trans (h.providerReply x)
  views := hs.views.trans h.views
  levels l hl := by
    rcases List.mem_cons.mp hl with rfl | hl
    · have hj := ho.inner.slot.trans_le hs.store.size'
      exact ((horder l.slot hlt).progress_eq (horder' j.slot hj) hs.store.standing).trans
        (h.levels j List.mem_cons_self)
    · have hsame : (w.store.janitor l.slot).progress = (w'.store.janitor l.slot).progress :=
        (congrArg JanitorState.progress (hs.store.janitors l.slot (hslots l hl)) :)
      exact hsame.trans (h.levels l hl)
  closings := h.closings
  releasings := h.releasings
  cells := hs.store.cells.trans h.cells
  bases := hs.store.bases.trans h.bases
  scripts := hs.store.scripts.trans h.scripts

theorem orderly_runProvider {m : Store α} (h : m.Orderly) (p : Provider) (xs : List ProviderOp) :
    ((hosting m p).runProvider xs).store.Orderly ∧
      m.janitors.size ≤ ((hosting m p).runProvider xs).store.janitors.size := by
  have hpersist := (hosting m p).flagsPersist_run (xs.map ProviderOp.toClientOp)
  exact ⟨orderly_run h (xs.map ProviderOp.toClientOp), hpersist.size⟩

/-- A tower before its first use. -/
structure Raised (base : Provider) (r : Roster) (p : Provider) (levels : List Janitor) (w : World α) :
    Prop where
  kept : w.Invariant r 0
  order : w.store.Orderly
  made : p ∈ w.providers
  inert : p.Inert
  tower : Provider.Tower base p levels
  unused : ∀ l ∈ levels, w.store.janitor l.slot = {}

namespace Raised

theorem slot_lt (h : Raised base r p levels w) : ∀ l ∈ levels, l.slot < w.store.janitors.size :=
  h.kept.store.janitors ▸ h.tower.slot_lt (h.kept.providers p h.made)

theorem wrap (h : Raised base r p levels w) {q : Nat} (hq : q < w.store.statistics.size) :
    ∃ r', Raised base r' (.managed w.store.janitors.size q .plain p)
      (⟨w.store.janitors.size, q, p⟩ :: levels)
      { w with
        store := ((addManaged q .plain p).run w.store).2
        providers := w.providers ++ [.managed w.store.janitors.size q .plain p] } := by
  obtain ⟨i, hi⟩ := List.getElem?_of_mem h.made
  obtain ⟨r', hkept⟩ := h.kept.perform (.addManaged q i)
  have horder : (w.perform (.addManaged q i)).store.Orderly := orderly_run h.order [.addManaged q i]
  simp only [World.perform, hi, if_pos hq] at hkept horder
  refine ⟨r', hkept, horder, List.mem_append_right _ List.mem_cons_self, ⟨rfl, h.inert⟩, .wrap h.tower _ q,
    fun l hl => ?_⟩
  rcases List.mem_cons.mp hl with rfl | hl
  · exact (janitor_addManaged q p w.store _).trans (if_pos rfl)
  · exact (janitor_addManaged q p w.store _).trans
      ((if_neg (Nat.ne_of_lt (h.slot_lt l hl))).trans (h.unused l hl))

theorem under (h : Raised base r j.provider (j :: levels) w) : j.Under r r.statistics.length :=
  (Provider.under_managed.mp (h.kept.providers _ h.made)).2

theorem stacked {q : Nat} (h : Raised base r' o.provider (o :: j :: levels) w)
    (h' : Raised base r j.provider (j :: levels) w') (ho : o = ⟨w'.store.janitors.size, q, j.provider⟩)
    (hstore : w.store = ((addManaged q .plain j.provider).run w'.store).2) :
    o.Over r' j ∧ Stacked r' o j (hosting w.store o.provider) (hosting w'.store j.provider) := by
  have hslot : o.slot = w'.store.janitors.size := congrArg Janitor.slot ho
  have hshares : Shares r' o.slot w.store w'.store := by
    have hcovers := h.kept.store.covers
    rw [hslot]
    rw [hstore] at hcovers ⊢
    exact shares_addManaged hcovers
  have hfresh : w.store.janitor o.slot = {} := h.unused o List.mem_cons_self
  have hfresh' : w'.store.janitor j.slot = {} := h'.unused j List.mem_cons_self
  refine ⟨⟨h.under.least, congrArg Janitor.delegate ho, h'.inert.2⟩, ⟨hshares, ?_, ?_⟩, rfl, rfl, [],
    rfl, rfl, nofun⟩
  · exact congrArg JanitorState.standing (hfresh.trans hfresh'.symm)
  · rw [show (hosting w'.store j.provider).store.janitor j.slot = {} from hfresh']
    nofun

end Raised

theorem Raised.asOne (h : Raised base r base [] w) (xs : List ProviderOp) (q : Nat) (qs : List Nat)
    (hqs : ∀ p ∈ q :: qs, p < w.store.statistics.size) : ∃ r' w' j levels,
      (raise base (qs ++ [q])).run w.store = (j.provider, w'.store) ∧
      w'.store.statistics.size = w.store.statistics.size ∧
      Raised base r' j.provider (j :: levels) w' ∧ (j :: levels).length = qs.length + 1 ∧
      AsOne (j :: levels) ⟨w.store.janitors.size, q, base⟩
        ((towerWorld w.store base (qs ++ [q])).runProvider xs)
        ((towerWorld w.store base [q]).runProvider xs) := by
  induction qs with
  | nil =>
    obtain ⟨r', hraised⟩ := h.wrap (hqs q List.mem_cons_self)
    refine ⟨r', _, ⟨w.store.janitors.size, q, base⟩, [], rfl, Array.size_modify .., hraised, rfl, ?_⟩
    obtain ⟨horder, hsize⟩ :=
      orderly_runProvider hraised.order (.managed w.store.janitors.size q .plain base) xs
    exact .refl _ horder ((size_lt_addManaged w.store q base).trans_le hsize)
  | cons p qs ih =>
    obtain ⟨r₁, w₁, j, levels, hrun, hsize, hraised, hlength, hasOne⟩ :=
      ih fun p hp => hqs p (by simp only [List.mem_cons] at hp ⊢; tauto)
    have hp : p < w₁.store.statistics.size :=
      hsize.symm ▸ hqs p (List.mem_cons_of_mem _ List.mem_cons_self)
    obtain ⟨r₂, hraised'⟩ := hraised.wrap hp
    have hrun' : (raise base (p :: qs ++ [q])).run w.store =
        (addManaged p .plain j.provider).run w₁.store := by
      rw [List.cons_append, raise, Call.run_bind, hrun]
    refine ⟨r₂, _, ⟨w₁.store.janitors.size, p, j.provider⟩, j :: levels, ?_, ?_, hraised',
      congrArg (· + 1) hlength, ?_⟩
    · exact hrun'
    · exact (Array.size_modify ..).trans hsize
    obtain ⟨ho, hstacked⟩ := hraised'.stacked (o := ⟨w₁.store.janitors.size, p, j.provider⟩) hraised rfl rfl
    have hr := hraised'.kept.store.sorted
    obtain ⟨horder, hgrows⟩ :=
      orderly_runProvider hraised'.order (.managed w₁.store.janitors.size p .plain j.provider) xs
    obtain ⟨horder', -⟩ := orderly_runProvider hraised.order j.provider xs
    rw [towerWorld, hrun] at hasOne
    rw [towerWorld, hrun']
    exact hasOne.wrap ho hr (hstacked.runProvider ho hr xs) hraised.slot_lt horder horder'
      ((size_lt_addManaged w₁.store p j.provider).trans_le hgrows)

/-- A tower of any height over any provider, failing and panicking ones included, is equivalent to a
single managed provider: users get the same replies and the same views of their cursors, and each level
has the flags and counters of the single level and has closed and released its delegate as often. -/
theorem tower_as_one (before : List (ClientOp α)) (xs : List ProviderOp) {base : Provider}
    (hbase : base ∈ (({} : World α).run before).providers) (q : Nat) (qs : List Nat)
    (hqs : ∀ p ∈ q :: qs, p < (({} : World α).run before).store.statistics.size) :
    let m := (({} : World α).run before).store
    let tower := ((raise base (qs ++ [q])).run m).1
    ∃ levels : List Janitor, Provider.Tower base tower levels ∧ levels.length = qs.length + 1 ∧
      (∀ l ∈ levels, l.id = base.id) ∧ tower.innermost.1 = base.innermost.1 ∧
      (base.wrapped? = none → tower.innermost = (base, levels.length)) ∧
      AsOne levels ⟨m.janitors.size, q, base⟩ ((towerWorld m base (qs ++ [q])).runProvider xs)
        ((towerWorld m base [q]).runProvider xs) := by
  obtain ⟨r, hkept⟩ := Invariant.start.run before
  have horder := orderly_run (w := ({} : World α)) (fun _ hlt => absurd hlt (Nat.not_lt_zero _)) before
  have hinert := inert_run (w := ({} : World α)) (fun p hp => absurd hp List.not_mem_nil) before
  obtain ⟨r', w', j, levels, hrun, -, hraised, hlength, hasOne⟩ :=
    Raised.asOne ⟨hkept, horder, hbase, hinert base hbase, .base, nofun⟩ xs q qs hqs
  have htower := hraised.tower
  intro m tower
  rw [show tower = j.provider from congrArg Prod.fst hrun]
  refine ⟨j :: levels, htower, hlength, htower.id_level, ?_, fun hnone => ?_, hasOne⟩
  · rw [htower.innermost]
  · rw [htower.innermost, Provider.innermost_of_wrapped? hnone, Nat.zero_add]

def panickingRelease : Script := { onRelease := fun _ => .panic ⟨some "frail"⟩, leaf := true }

theorem nonReentrant_panickingRelease : panickingRelease.NonReentrant where
  onOpen _ := trivial
  afterOpen _ := trivial
  onClose _ := trivial
  afterClose _ := trivial
  onRelease _ := trivial
  afterRelease _ := trivial
  cursorRelease := nofun

/-- A provider over three items that panics in `release_resources`. -/
def panicOnRelease : Provider := .scripted 0 panickingRelease (.base 0 ⟨1⟩ 0)

def panicWorld : List (ClientOp Nat) :=
  [.addStatistics, .addBase ⟨2, 2, .unbounded, .owned⟩ (.ready (.bare #[1, 2, 3]) rfl),
    .addScripted panickingRelease nonReentrant_panickingRelease 0]

/-- Three levels: a cursor reads, the provider is closed, and the cursor is released. -/
theorem tower_as_one_panic :
    let m := (({} : World Nat).run panicWorld).store
    let xs := [ProviderOp.openCursor, .cursorOp 0 .next, .close, .cursorOp 0 .release]
    panicOnRelease ∈ (({} : World Nat).run panicWorld).providers ∧ (∀ p ∈ [0, 0, 0], p < m.statistics.size) ∧
      ∃ levels : List Janitor, levels.length = 3 ∧
        AsOne levels ⟨0, 0, panicOnRelease⟩ ((towerWorld m panicOnRelease [0, 0, 0]).runProvider xs)
          ((towerWorld m panicOnRelease [0]).runProvider xs) ∧
        ∀ l ∈ levels, (((towerWorld m panicOnRelease [0, 0, 0]).runProvider xs).store.janitor
          l.slot).progress = (⟨true, true, 0⟩, 1, 1) := by
  intro m xs
  have hbase : panicOnRelease ∈ (({} : World Nat).run panicWorld).providers :=
    List.mem_of_getElem? (i := 1) rfl
  have hqs : ∀ p ∈ [0, 0, 0], p < m.statistics.size := by decide
  obtain ⟨levels, -, hlength, -, -, -, h⟩ := tower_as_one panicWorld xs hbase 0 [0, 0] hqs
  have hone : (((towerWorld m panicOnRelease [0]).runProvider xs).store.janitor 0).progress =
      (⟨true, true, 0⟩, 1, 1) := by
    decide +kernel
  exact ⟨hbase, hqs, levels, hlength, h, fun l hl => (h.levels l hl).trans hone⟩

end World

end Replay
