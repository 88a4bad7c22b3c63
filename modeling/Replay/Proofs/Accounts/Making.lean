import Replay.Proofs.Accounts.Opening
import Replay.Proofs.Contexts
import Replay.Proofs.Janitor.Lasting
import Replay.Proofs.World.ClientOps

/-!
Making sources, buffers, providers and managers keeps the store invariant. What is made is appended to
the roster with counters at zero.
-/
namespace Replay

open Store

variable {α β : Type} {r r' : Roster} {w : Switches α} {n q feed : Nat} {m m' : Store α}
  {h k k' : Nat → Nat} {L : Ledger}

theorem Roster.Grows.refl (r : Roster) : r.Grows r := ⟨List.prefix_rfl, List.prefix_rfl⟩

theorem Roster.Grows.trans {r'' : Roster} (h : r.Grows r') (h' : r'.Grows r'') : r.Grows r'' :=
  ⟨h.chains.trans h'.chains, h.statistics.trans h'.statistics⟩

theorem Roster.Covers.grow (hm : r.Covers m) (hr : r.Grows r')
    (hlent : ∀ feed c, m'.feeds.lent feed = some c → m.feeds.lent feed = some c)
    (houter : ∀ slot, (m'.script slot).outer = (m.script slot).outer) : r'.Covers m' where
  lent feed c hc := getElem?_mono hr.chains (hm.lent feed c (hlent feed c hc))
  outer slot j hj :=
    ((hm.outer slot j (houter slot ▸ hj)).grow hr).mono hr.statistics.length_le

structure ManagerState.Fits (r : Roster) (m : Store α) (t : ManagerState) : Prop where
  statistics : t.statistics < m.statistics.size
  contextsDistinct : t.ContextsDistinct
  listed : ∀ entry ∈ t.contexts, ∀ p ∈ entry.2, p.Under r r.statistics.length

theorem ManagerState.Fits.mono {t : ManagerState} (h : t.Fits r m)
    (hsize : m.statistics.size ≤ m'.statistics.size) (hr : r.Grows r') : t.Fits r' m' where
  statistics := h.statistics.trans_le hsize
  contextsDistinct := h.contextsDistinct
  listed entry hentry p hp :=
    ((h.listed entry hentry p hp).grow hr).mono hr.statistics.length_le

/-- The invariant of a store between calls, with the cursors counted by `held` outside of it. -/
structure Store.Invariant (r : Roster) (held : Nat → Nat) (m : Store α) : Prop where
  chains : ∀ (feed : Nat) (c : Cursor), r.chains[feed]? = some (some c) →
    c.Under r r.statistics.length
  feeds : r.chains.length = m.feeds.cells.size
  janitors : r.statistics.length = m.janitors.size
  covers : r.Covers m
  made : ∀ q ∈ r.statistics, q < m.statistics.size
  managers : ∀ i t, m.manager? i = some t → t.Fits r m
  countsExact : ∀ q < m.statistics.size, CountsExact r q r.statistics.length { held } m

namespace Store.Invariant

theorem sorted (hm : Invariant r h m) : r.Sorted := fun feed c hc => ⟨_, hm.chains feed c hc⟩

theorem switches_countsExact (hm : Invariant r h m) (left : Nat) :
    (switches left : Switches α).CountsExact r :=
  countsExact_switches hm.sorted left

theorem lentCounts_eq_zero (hm : Invariant r h m) : m.feeds.lentCounts r.statistics.length = 0 := by
  rw [Feeds.lentCounts, Finset.sum_apply]
  refine Finset.sum_eq_zero fun feed _ => ?_
  cases hc : m.feeds.lent feed with
  | none => rfl
  | some c => exact (hm.chains feed c (hm.covers.lent feed c hc)).below.counted_eq_zero le_rfl

theorem open_eq (hm : Invariant r h m) {slot : Nat} (hslot : slot < r.statistics.length) :
    (m.janitor slot).openCursors = m.feeds.lentCounts slot + h slot ∧
      (m.janitor slot).clipped = false := by
  have hexact := hm.countsExact _ (hm.made _ (List.getElem_mem hslot))
  exact ⟨hexact.open_eq slot hslot, hexact.unclipped slot hslot⟩

theorem of_transfer (hm : Invariant r (h + k) m) (htransfer : Transfer r r.statistics.length m k m' k') :
    Invariant r (h + k') m' where
  chains := hm.chains
  feeds := hm.feeds.trans htransfer.feeds.size.symm
  janitors := hm.janitors.trans htransfer.janitors.symm
  covers := htransfer.covers hm.covers
  made q hq := htransfer.statistics ▸ hm.made q hq
  managers i t ht := by
    rw [manager?, htransfer.managers] at ht
    exact (hm.managers i t ht).mono htransfer.statistics.ge (.refl r)
  countsExact q hq := htransfer.countsExact q { held := h } (hm.countsExact q (htransfer.statistics ▸ hq))

theorem transfers {f : Call α β} {l : β → Nat → Nat} {P : β → Prop} (hm : Invariant r (h + k) m)
    (hf : f.Transfers r r.statistics.length k l P) :
    Invariant r (h + l (f.run m).1) (f.run m).2 ∧ P (f.run m).1 :=
  ⟨hm.of_transfer (hf m hm.covers).1, (hf m hm.covers).2⟩

theorem neutral {f : Call α β} (hm : Invariant r h m) (hf : f.Neutral r r.statistics.length) :
    Invariant r h (f.run m).2 := by
  have hdone := Invariant.of_transfer (h := h) (k := 0) (by rwa [add_zero]) (hf m hm.covers 0)
  rwa [add_zero] at hdone

end Store.Invariant

section growing

theorem Store.CountsExact.grow (hL : CountsExact r q n L m) (hn : n ≤ r.statistics.length)
    (hr : r.Grows r') : CountsExact r' q n L m := by
  have htotal : ∀ f : Nat → Nat, r'.total q n f = r.total q n f := by
    intro f
    refine Finset.sum_congr rfl fun slot hslot => ?_
    have hlt := (Finset.mem_range.mp hslot).trans_le hn
    rw [List.getElem?_eq_getElem hlt, getElem?_mono hr.statistics (List.getElem?_eq_getElem hlt)]
  refine { hL with cursors := ?_, providers := ?_ }
  · rw [htotal]
    exact hL.cursors
  · rw [htotal]
    exact hL.providers

end growing

namespace Store.Invariant

theorem newStatistics (hm : Invariant r h m) : Invariant r h ((Store.newStatistics).run m).2 := by
  have hsize : ((Store.newStatistics).run m).2.statistics.size = m.statistics.size + 1 :=
    Array.size_push ..
  have hstatistics : ∀ q, ((Store.newStatistics).run m).2.statisticsAt q = m.statisticsAt q := by
    intro q
    simp only [Store.newStatistics, Call.run_modifyGet, statisticsAt, Array.getD_eq_getD_getElem?,
      Array.getElem?_push]
    split
    · rename_i hq
      rw [hq, Array.getElem?_eq_none le_rfl]
      rfl
    · rfl
  refine ⟨hm.chains, hm.feeds, hm.janitors,
    hm.covers.grow (.refl r) (fun _ _ => id) fun _ => rfl, fun q hq => ?_, fun i t ht => ?_,
    fun q hq => ?_⟩
  · rw [hsize]
    exact Nat.lt_succ_of_lt (hm.made q hq)
  · exact (hm.managers i t ht).mono ((Nat.le_succ _).trans_eq hsize.symm) (.refl r)
  · rw [hsize] at hq
    rcases Nat.lt_succ_iff_lt_or_eq.mp hq with hlt | rfl
    · have hL := hm.countsExact q hlt
      refine ⟨hsize ▸ hq, hL.open_eq, hL.unclipped, ?_, ?_, ?_⟩
      · rw [hstatistics, hL.cursors]
        rfl
      · rw [hstatistics, hL.providers]
        rfl
      · rw [hstatistics, hL.exact]
    · have hnone : m.statisticsAt m.statistics.size = {} := by
        rw [statisticsAt, Array.getD_eq_getD_getElem?, Array.getElem?_eq_none le_rfl]
        rfl
      have htotal : ∀ f : Nat → Nat, r.total m.statistics.size r.statistics.length f = 0 := by
        intro f
        refine Finset.sum_eq_zero fun slot _ => if_neg fun hslot => ?_
        exact lt_irrefl _ (hm.made _ (List.mem_of_getElem? hslot))
      refine ⟨hsize ▸ hq, fun slot hslot => (hm.open_eq hslot).1,
        fun slot hslot => (hm.open_eq hslot).2, ?_, ?_, ?_⟩
      · rw [hstatistics, hnone, htotal]
        rfl
      · rw [hstatistics, hnone, htotal]
        rfl
      · rw [hstatistics, hnone]

theorem of_managers {f : Array ManagerState → Array ManagerState} (hm : Invariant r h m)
    (hf : ∀ (i : Nat) (t : ManagerState), (f m.managers)[i]? = some t → t.Fits r m) :
    Invariant r h { m with managers := f m.managers } where
  chains := hm.chains
  feeds := hm.feeds
  janitors := hm.janitors
  covers := hm.covers.grow (.refl r) (fun _ _ => id) fun _ => rfl
  made := hm.made
  managers i t ht := (hf i t ht).mono le_rfl (.refl r)
  countsExact q hq := { hm.countsExact q hq with }

theorem addManager (hm : Invariant r h m) (config : Config) :
    Invariant r h ((Store.addManager config).run m).2 := by
  unfold Store.addManager
  split
  · exact hm
  · have hmade := hm.newStatistics
    refine hmade.of_managers (f := fun managers => managers.push
      { config, statistics := m.statistics.size }) fun i t ht => ?_
    rw [Array.getElem?_push] at ht
    split at ht
    · cases ht
      refine ⟨?_, ⟨List.nodup_nil, nofun⟩, nofun⟩
      exact (Nat.lt_succ_self _).trans_eq (Array.size_push ..).symm
    · exact hmade.managers i t ht

theorem addSource (hm : Invariant r h m) {source : Source α}
    (hsource : ∀ c, source.cursor? = some c → c.Under r r.statistics.length) :
    Invariant { r with chains := r.chains ++ [source.cursor?.map Cursor.bare] } h
      ((Store.addSource source).run m).2 := by
  have hgrows : r.Grows { r with chains := r.chains ++ [source.cursor?.map Cursor.bare] } :=
    ⟨List.prefix_append _ _, List.prefix_rfl⟩
  have hsize : m.feeds.cells.size = r.chains.length := hm.feeds.symm
  have hlent : ∀ feed c, (m.feeds.add source).2.lent feed = some c → m.feeds.lent feed = some c :=
    fun feed c hc => Feeds.lent_add feed ▸ hc
  refine ⟨fun feed c hc => ?_, ?_, hm.janitors, hm.covers.grow hgrows hlent fun _ => rfl, hm.made,
    fun i t ht => ?_, fun q hq => ?_⟩
  · rw [List.getElem?_append] at hc
    split at hc
    · exact (hm.chains feed c hc).grow hgrows
    · obtain ⟨c', hc', rfl⟩ := Option.map_eq_some_iff.mp (List.mem_singleton.mp
        (List.mem_of_getElem? hc)).symm
      exact ((hsource c' hc').of_bare (Cursor.bare_bare c')).grow hgrows
  · rw [List.length_append, ← hsize]
    exact (Array.size_push ..).symm
  · exact (hm.managers i t ht).mono le_rfl hgrows
  · have hL := hm.countsExact q hq
    have hcounts : (m.feeds.add source).2.lentCounts = m.feeds.lentCounts := Feeds.lentCounts_add
    have hexact : CountsExact r q r.statistics.length { held := h } ((Store.addSource source).run m).2 :=
      hL.congr rfl (fun slot _ => congrFun hcounts slot) (fun _ _ => rfl) rfl
    exact hexact.grow le_rfl hgrows

theorem addBuffer (hw : w.CountsExact r) (hm : Invariant r (h + m.feeds.chainedCounts feed) m)
    (hshut : m.feeds.isOpen feed = false)
    (hlisted : r.chains[feed]? = some (m.feeds.chained feed)) (config : Config) :
    Invariant r h ((Store.addBuffer w config feed).run m).2 ∧
      ((Store.addBuffer w config feed).run m).2.managers = m.managers := by
  have hlt : feed < m.feeds.cells.size := by
    rw [← hm.feeds]
    exact (List.getElem?_eq_some_iff.mp hlisted).1
  rw [Store.addBuffer, Call.run_bind, Call.run_get]
  dsimp only
  cases hb : Buffer.ofConfig config ((m.feeds.source? feed).bind m.feeds.announced) with
  | error e =>
    have hdropped := hw.dropSource hm.covers hshut
      (fun c hc => hm.chains feed c (hlisted.trans (congrArg some hc))) 0
    rw [zero_add] at hdropped
    exact ⟨hm.of_transfer hdropped, hdropped.managers⟩
  | ok b =>
    have hopen : b.closed = false := congrArg Prod.fst (Buffer.status_ofConfig hb)
    have hcounts := Feeds.lentCounts_open hlt hshut hopen
    refine ⟨⟨hm.chains, hm.feeds.trans (Feeds.size_setBuffer ..).symm, hm.janitors,
      ⟨fun other c hc => ?_, hm.covers.outer⟩, hm.made, fun i t ht => ?_, fun q hq => ?_⟩, rfl⟩
    · replace hc : (m.feeds.setBuffer feed (some b)).lent other = some c := hc
      rw [Feeds.lent_open hlt hopen] at hc
      split at hc
      · rename_i hother
        rw [← hother, hlisted, hc]
      · exact hm.covers.lent other c hc
    · exact (hm.managers i t ht).mono le_rfl (.refl r)
    · have hL := hm.countsExact q hq
      refine { hL with open_eq := fun slot hslot => ?_ }
      have hopen_eq := hL.open_eq slot hslot
      change (m.janitor slot).openCursors = (m.feeds.setBuffer feed (some b)).lentCounts slot + h slot
      rw [hcounts, Pi.add_apply]
      simp only [Pi.add_apply] at hopen_eq
      omega

end Store.Invariant

/-- The roster after a provider was made; a managed one takes the next slot. -/
structure Roster.Made (r : Roster) (p : Option Provider) (r' : Roster) : Prop where
  grows : r.Grows r'
  statistics :
    r'.statistics = r.statistics ++ ((p.bind Provider.janitor?).map Janitor.statistics).toList
  under : ∀ q ∈ p, q.Under r' r'.statistics.length
  slot : ∀ j ∈ p.bind Provider.janitor?, j.slot = r.statistics.length

theorem Roster.Made.none (hr : r.Grows r') (hs : r'.statistics = r.statistics) :
    r.Made none r' := ⟨hr, by rw [hs]; exact (List.append_nil _).symm, nofun, nofun⟩

theorem Roster.Made.base {slot : Nat} {id : ProviderId} (hr : r.Grows r')
    (hs : r'.statistics = r.statistics)
    (hp : (Provider.base slot id feed).Under r' r'.statistics.length) :
    r.Made (some (.base slot id feed)) r' := by
  refine ⟨hr, by rw [hs]; exact (List.append_nil _).symm, fun q hq => ?_, nofun⟩
  cases hq
  exact hp

theorem Roster.Made.managed {inner : Provider} {hook : Hook} (hhook : hook.Wraps)
    (hinner : inner.Under r r.statistics.length) :
    r.Made (some (.managed r.statistics.length q hook inner))
      { r with statistics := r.statistics ++ [q] } := by
  have hgrows : r.Grows { r with statistics := r.statistics ++ [q] } :=
    ⟨List.prefix_rfl, List.prefix_append _ _⟩
  refine ⟨hgrows, rfl, fun p hp => ?_, fun j hj => ?_⟩
  · cases hp
    rw [List.length_append]
    refine ⟨Nat.lt_succ_self _, ?_, hhook, hinner.grow hgrows⟩
    rw [List.getElem?_append_right le_rfl, Nat.sub_self]
    rfl
  · cases hj
    rfl

theorem Roster.Made.of_grows {r'' : Roster} {p : Option Provider} (hr : r.Grows r')
    (hs : r'.statistics = r.statistics) (h : r'.Made p r'') : r.Made p r'' :=
  ⟨hr.trans h.grows, by rw [h.statistics, hs], h.under, fun j hj => by rw [h.slot j hj, hs]⟩

theorem Store.run_addBase (feed : Nat) (m : Store α) :
    ∃ slot id, ((Store.addBase feed).run m).1 = .base slot id feed := ⟨_, _, rfl⟩

namespace Store.Invariant

theorem neutral_addBase (feed : Nat) : (Store.addBase (α := α) feed).Neutral r n :=
  .bind neutral_newProviderId fun _ =>
    Call.neutral_of_alike (fun _ => rfl) (fun _ => rfl) (fun _ => rfl) (fun _ => .refl _)
      fun _ _ => rfl

theorem outer_push (slot : Nat) :
    (({ m with scripts := m.scripts.push {} } : Store α).script slot).outer = (m.script slot).outer := by
  simp only [script, Array.getD_eq_getD_getElem?, Array.getElem?_push]
  split
  · rename_i hslot
    rw [hslot, Array.getElem?_eq_none le_rfl]
    rfl
  · rfl

theorem neutral_addScripted (script : Script) (inner : Provider) :
    (Store.addScripted (α := α) script inner).Neutral r n :=
  Call.neutral_of_alike (fun _ => rfl) (fun _ => rfl) (fun _ => rfl) (fun _ => .refl _)
    fun _ slot => outer_push slot

theorem addFeed {source : Source α} (hm : Invariant r (h + source.cursor?.elim 0 Cursor.counted) m)
    (hsource : ∀ c, source.cursor? = some c → c.Under r r.statistics.length) (left : Nat)
    (config : Config) :
    ∃ r', r.Grows r' ∧ r'.statistics = r.statistics ∧
      (∀ slot id, (Provider.base slot id ((Store.addSource source).run m).1).Under r'
        r'.statistics.length) ∧
      Invariant r' h ((Store.addBuffer (switches left) config ((Store.addSource source).run m).1).run
        ((Store.addSource source).run m).2).2 ∧
      ((Store.addBuffer (switches left) config ((Store.addSource source).run m).1).run
        ((Store.addSource source).run m).2).2.managers = m.managers := by
  have hadded := hm.addSource hsource
  have hlast : (r.chains ++ [source.cursor?.map Cursor.bare])[m.feeds.cells.size]? =
      some (source.cursor?.map Cursor.bare) := by
    rw [← hm.feeds, List.getElem?_append_right le_rfl, Nat.sub_self]
    rfl
  have hchained : ((Store.addSource source).run m).2.feeds.chained m.feeds.cells.size =
      source.cursor?.map Cursor.bare := by
    have hnew : (m.feeds.add source).2.chained m.feeds.cells.size = _ := Feeds.chained_add _
    rwa [if_pos rfl] at hnew
  have hcounts : ((Store.addSource source).run m).2.feeds.chainedCounts m.feeds.cells.size =
      source.cursor?.elim 0 Cursor.counted := by
    rw [Feeds.chainedCounts, hchained]
    cases source.cursor? with
    | none => rfl
    | some c => exact c.counted_bare
  have hshut : ((Store.addSource source).run m).2.feeds.isOpen m.feeds.cells.size = false :=
    (Feeds.isOpen_add _).trans Feeds.shut_size
  rw [← hcounts] at hadded
  refine ⟨{ r with chains := r.chains ++ [source.cursor?.map Cursor.bare] },
    ⟨List.prefix_append _ _, List.prefix_rfl⟩, rfl,
    fun slot id => ⟨_, hlast, fun c hc => ?_⟩,
    hadded.addBuffer (hadded.switches_countsExact left) hshut
      (hlast.trans (congrArg some hchained.symm)) config⟩
  obtain ⟨c', hc', rfl⟩ := Option.map_eq_some_iff.mp hc
  exact ((hsource c' hc').of_bare (Cursor.bare_bare c')).below

theorem makeBase {source : Source α} (hm : Invariant r (h + source.cursor?.elim 0 Cursor.counted) m)
    (hsource : ∀ c, source.cursor? = some c → c.Under r r.statistics.length) (config : Config) :
    ∃ r', r.Made ((World.makeBase config source).run m).1 r' ∧
      Invariant r' h ((World.makeBase config source).run m).2 ∧
      ((World.makeBase config source).run m).2.managers = m.managers := by
  obtain ⟨r', hgrows, hstatistics, hunder, hkept, hmanagers⟩ :=
    hm.addFeed hsource ((Store.addSource source).run m).2.endings config
  rw [World.run_makeBase]
  rcases hrun : (Store.addBuffer (switches ((Store.addSource source).run m).2.endings) config
    ((Store.addSource source).run m).1).run ((Store.addSource source).run m).2 with ⟨e | u, m'⟩
  · rw [hrun] at hkept hmanagers
    exact ⟨r', .none hgrows hstatistics, hkept, hmanagers⟩
  · rw [hrun] at hkept hmanagers
    obtain ⟨slot, id, hbase⟩ := run_addBase ((Store.addSource source).run m).1 m'
    have hmade := Roster.Made.base hgrows hstatistics (hunder slot id)
    rw [← hbase] at hmade
    exact ⟨r', hmade, hkept.neutral (neutral_addBase _), hmanagers⟩

theorem janitor_push (slot : Nat) : ({ m with janitors := m.janitors.push {} } : Store α).janitor
    slot = if slot = m.janitors.size then {} else m.janitor slot := by
  simp only [janitor, Array.getD_eq_getD_getElem?, Array.getElem?_push]
  split
  · rfl
  · rfl

theorem addManaged (hm : Invariant r h m) (hheld : h r.statistics.length = 0)
    (hq : q < m.statistics.size) (hook : Hook) (inner : Provider) :
    Invariant { r with statistics := r.statistics ++ [q] } h
      ((Store.addManaged q hook inner).run m).2 := by
  have hgrows : r.Grows { r with statistics := r.statistics ++ [q] } :=
    ⟨List.prefix_rfl, List.prefix_append _ _⟩
  have hsize : (m.charge q (·.openProvider)).statistics.size = m.statistics.size :=
    Array.size_modify ..
  have hlength : (r.statistics ++ [q]).length = r.statistics.length + 1 := List.length_append
  have hnew := janitor_push (m := m.charge q (·.openProvider))
  have hlast : (r.statistics ++ [q])[r.statistics.length]? = some q := by
    rw [List.getElem?_append_right le_rfl, Nat.sub_self]
    rfl
  refine ⟨fun feed c hc => ?_, hm.feeds, ?_, hm.covers.grow hgrows (fun _ _ => id) fun _ => rfl,
    fun p hp => ?_, fun i t ht => ?_, fun p hp => ?_⟩
  · rw [hlength]
    exact ((hm.chains feed c hc).grow hgrows).mono (Nat.le_succ _)
  · rw [hlength, hm.janitors]
    exact (Array.size_push ..).symm
  · refine (?_ : p < m.statistics.size).trans_eq hsize.symm
    rcases List.mem_append.mp hp with hp | hp
    · exact hm.made p hp
    · exact List.mem_singleton.mp hp ▸ hq
  · exact (hm.managers i t ht).mono hsize.ge hgrows
  · have hL := (hm.countsExact p (hsize ▸ hp)).openProvider (p := q)
    have hbelow := hL.grow (n := r.statistics.length) le_rfl hgrows
    have hself : ((Store.addManaged q hook inner).run m).2.janitor r.statistics.length = {} := by
      exact (hnew _).trans (if_pos hm.janitors)
    rw [hlength]
    refine countsExact_succ.mpr ⟨?_, ?_, ?_⟩
    · rw [hself, hlast]
      simp only [Option.some.injEq]
      have hjanitor : ∀ slot < r.statistics.length,
          (((Store.addManaged q hook inner).run m).2.janitor slot).account =
            ((m.charge q (·.openProvider)).janitor slot).account := by
        intro slot hslot
        exact congrArg _ ((hnew slot).trans (if_neg (Nat.ne_of_lt (hslot.trans_eq hm.janitors))))
      have hledger : ({ held := h } : Ledger).owe (if q = p then JanitorState.due {} else 0)
          (if q = p then JanitorState.live {} else 0) =
            ({ held := h } : Ledger).owe 0 (if q = p then 1 else 0) :=
        congrArg (fun due => ({ held := h } : Ledger).owe due _) (ite_self 0)
      rw [hledger]
      exact hbelow.congr rfl (fun _ _ => rfl) hjanitor rfl
    · rw [hself]
      change 0 = m.feeds.lentCounts r.statistics.length + h r.statistics.length
      rw [hm.lentCounts_eq_zero, hheld]
    · rw [hself]

theorem onManager (hm : Invariant r h m) (slot : Nat) {f : ManagerState → ManagerState}
    (hf : ∀ t, t.Fits r m → (f t).Fits r m) : Invariant r h ((Store.onManager slot f).run m).2 := by
  refine hm.of_managers (f := fun managers => managers.modify slot f) fun i t ht => ?_
  rw [Array.getElem?_modify] at ht
  split at ht
  · obtain ⟨t', ht', rfl⟩ := Option.map_eq_some_iff.mp ht
    exact hf t' (hm.managers i t' ht')
  · exact hm.managers i t ht

theorem manageProvider (hm : Invariant r h m) (hheld : h r.statistics.length = 0) {inner : Provider}
    (hinner : inner.Under r r.statistics.length) (manager : Nat) (context : String) :
    ∃ r', r.Made ((Manager.manageProvider manager inner context).run m).1 r' ∧
      Invariant r' h ((Manager.manageProvider manager inner context).run m).2 := by
  cases ht : m.manager? manager with
  | none =>
    rw [Manager.run_manageProvider_none ht]
    exact ⟨r, .none (.refl r) rfl, hm⟩
  | some t =>
    have hmade := Roster.Made.managed (q := t.statistics) (show Hook.plain.Wraps from trivial) hinner
    rw [hm.janitors, ← run_addManaged t.statistics .plain inner m] at hmade
    have hadded := hm.addManaged hheld (hm.managers manager t ht).statistics .plain inner
    rw [Manager.run_manageProvider ht]
    simp only [Call.run_bind, Call.run_get, Call.run_pure]
    refine ⟨_, hmade, (hadded.neutral (neutral_note _)).onManager manager fun t ht =>
      ⟨?_, ht.contextsDistinct.register, t.forall_register ht.listed _ context (hmade.under _ rfl)⟩⟩
    rw [ManagerState.statistics_register]
    exact ht.statistics

/-- `manage` makes a base provider over a new buffer and manages that. -/
theorem makeManaged_cases {source : Source α} {manager : Nat} {t : ManagerState}
    (ht : m.manager? manager = some t)
    (hm : Invariant r (h + source.cursor?.elim 0 Cursor.counted) m)
    (hsource : ∀ c, source.cursor? = some c → c.Under r r.statistics.length) (context : String) :
    ∃ r' m', r.Grows r' ∧ r'.statistics = r.statistics ∧ Invariant r' h m' ∧ m'.managers = m.managers ∧
      m.FlagsPersist m' ∧ ((World.makeManaged manager context source).run m = (none, m') ∨
        ∃ base : Provider, base.Under r' r'.statistics.length ∧
          (World.makeManaged manager context source).run m =
            (Manager.manageProvider manager base context).run m') := by
  obtain ⟨r', hgrows, hstatistics, hunder, hkept, hmanagers⟩ :=
    hm.addFeed hsource ((Store.addSource source).run m).2.endings t.config
  have hsame : m.FlagsPersist ((Store.addSource source).run m).2 := .of_janitors rfl
  have hpersist := hsame.trans (keepsOrderly_addBuffer t.config ((Store.addSource source).run m).1
    ((Store.addSource source).run m).2).1
  rw [Call.run_withSwitches] at hpersist
  rw [World.run_makeManaged ht]
  rcases hrun : (Store.addBuffer (switches ((Store.addSource source).run m).2.endings) t.config
    ((Store.addSource source).run m).1).run ((Store.addSource source).run m).2 with ⟨e | u, m'⟩
  · rw [hrun] at hkept hmanagers hpersist
    exact ⟨r', m', hgrows, hstatistics, hkept, hmanagers, hpersist, .inl rfl⟩
  · rw [hrun] at hkept hmanagers hpersist
    obtain ⟨slot, id, hbase⟩ := run_addBase ((Store.addSource source).run m).1 m'
    have hinner := hunder slot id
    rw [← hbase] at hinner
    have hadded := hkept.neutral (neutral_addBase ((Store.addSource source).run m).1)
    exact ⟨r', _, hgrows, hstatistics, hadded, hmanagers,
      hpersist.trans (keepsOrderly_addBase ((Store.addSource source).run m).1 m').1, .inr ⟨_, hinner, rfl⟩⟩

theorem makeManaged {source : Source α} {manager : Nat} {t : ManagerState}
    (ht : m.manager? manager = some t)
    (hm : Invariant r (h + source.cursor?.elim 0 Cursor.counted) m)
    (hheld : h r.statistics.length = 0)
    (hsource : ∀ c, source.cursor? = some c → c.Under r r.statistics.length) (context : String) :
    ∃ r', r.Made ((World.makeManaged manager context source).run m).1 r' ∧
      Invariant r' h ((World.makeManaged manager context source).run m).2 := by
  obtain ⟨r', m', hgrows, hstatistics, hkept, -, -, hrun | ⟨base, hbase, hrun⟩⟩ :=
    hm.makeManaged_cases ht hsource context
  · rw [hrun]
    exact ⟨r', .none hgrows hstatistics, hkept⟩
  · rw [hrun]
    rw [← hstatistics] at hheld
    obtain ⟨r'', hmade, hkept'⟩ := hkept.manageProvider hheld hbase manager context
    exact ⟨r'', .of_grows hgrows hstatistics hmade, hkept'⟩

theorem releaseAll (hw : w.CountsExact r) {ps : List Provider}
    (hps : ∀ p ∈ ps, p.Under r n) (report : Report) :
    (Manager.releaseAll w ps report).Neutral r n := by
  induction ps generalizing report with
  | nil => exact .pure _
  | cons p ps ih =>
    have hrest := ih fun q hq => hps q (List.mem_cons_of_mem p hq)
    unfold Manager.releaseAll
    cases p with
    | managed slot statistics hook inner =>
      obtain ⟨-, hj⟩ := Provider.under_managed.mp (hps _ List.mem_cons_self)
      exact .bind ((hw.demand hj).neutral.mono hj.slot) fun _ => hrest _
    | base slot id feed => exact .bind (.pure _) fun _ => hrest _
    | scripted slot script inner => exact .bind (.pure _) fun _ => hrest _

theorem complete (hw : w.CountsExact r) (hm : Invariant r h m) (manager : Nat) (context : String) :
    Invariant r h ((Manager.complete w manager context).run m).2 ∧
      ((Manager.complete w manager context).run m).2.managers =
        m.managers.modify manager (·.forget context) := by
  cases ht : m.manager? manager with
  | none =>
    rw [Manager.run_complete_none ht]
    refine ⟨hm, (modify_eq_self fun t ht' => ?_).symm⟩
    exact absurd (ht.symm.trans ht') (by simp)
  | some t =>
    cases hp : t.contexts.lookup context with
    | none =>
      rw [Manager.run_complete_untracked ht hp]
      refine ⟨hm, (modify_eq_self fun t' ht' => ?_).symm⟩
      cases ht.symm.trans ht'
      exact ManagerState.forget_of_untracked hp
    | some ps =>
      rw [Manager.run_complete_tracked ht hp]
      have hforgotten : Invariant r h (m.forgetting manager context) :=
        hm.onManager manager fun t ht => ⟨ht.statistics, ht.contextsDistinct.forget, fun entry hentry =>
          ht.listed entry (List.mem_of_mem_filter hentry)⟩
      have hlisted : ∀ p ∈ ps, p.Under r r.statistics.length := by
        intro p hmem
        obtain ⟨entry, hentry, hmem⟩ := ManagerState.mem_of_mem_providersIn
          (t := t) (c := context) (by rwa [ManagerState.providersIn, hp])
        exact (hm.managers manager t ht).listed entry hentry p hmem
      have hneutral : Call.Neutral (α := α) r r.statistics.length (do
          let report ← Manager.releaseAll w ps .skipped
          note (.contextCompleted context ps.length report.faults.length)
          return report) := by
        refine .bind (releaseAll hw hlisted _) fun _ => ?_
        refine .bind (neutral_note _) fun _ => ?_
        exact .pure _
      exact ⟨hforgotten.neutral hneutral, (hneutral _ hforgotten.covers 0).managers⟩

theorem completeAll (hw : w.CountsExact r) (hm : Invariant r h m) (manager : Nat) (contexts : List String)
    (report : Report) :
    Invariant r h ((Manager.completeAll w manager contexts report).run m).2 := by
  induction contexts generalizing m report with
  | nil => exact hm
  | cons context contexts ih => exact ih (complete hw hm manager context).1 _

end Store.Invariant

end Replay
