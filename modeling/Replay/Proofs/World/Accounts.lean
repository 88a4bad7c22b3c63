import Replay.Proofs.Accounts.Making

/-!
Counters and statistics are exact after every run of client operations. A janitor counts the unreleased
cursors of its provider that clients hold or sources read from; statistics count the providers not
closed and the open cursors of those not released.
-/
namespace Replay

open Store

variable {α β : Type} {r r' : Roster} {n : Nat}

section calls

variable {k : Nat → Nat} {c : Cursor}

theorem Store.Call.Transfers.withSwitches {f : Switches α → Call α β} {l : β → Nat → Nat}
    {P : β → Prop} (hf : ∀ left, (f (switches left)).Transfers r n k l P) :
    (Replay.withSwitches f).Transfers r n k l P :=
  Neutral.get.then fun m => hf m.endings

theorem Store.Call.Neutral.withSwitches {f : Switches α → Call α β}
    (hf : ∀ left, (f (switches left)).Neutral r n) : (Replay.withSwitches f).Neutral r n :=
  .bind .get fun m => hf m.endings

theorem CursorOp.transfers (hr : r.Sorted) (hc : c.Under r n) (t : CursorOp) :
    (t.perform c : Call α (Reply α × Cursor)).Transfers r n c.counted (fun x => x.2.counted)
      fun x => x.2.Under r n := by
  cases t with
  | hasNext =>
    refine Call.Neutral.then (fun m _ k => ?_) fun x => .pure rfl hc
    exact .of_feeds (c.readsTo_hasNextBy Feeds.endsNothing_draw).alike k
  | next =>
    refine (hc.transfers_onFeeds fun s => ?_).bind fun x hx => .pure rfl hx
    exact c.readsTo_nextBy Feeds.endsNothing_draw
  | seek position =>
    rw [CursorOp.perform]
    cases hs : c.seek position with
    | error e => exact .pure rfl hc
    | ok d => exact .pure (Cursor.counted_eq_of_bare (Cursor.bare_seek hs)) (hc.of_bare (Cursor.bare_seek hs))
  | release =>
    refine (Call.Transfers.withSwitches fun left => (countsExact_switches hr left).releaseLayers hc).bind
      fun x hx => .pure rfl hx.under
  | close =>
    refine (Call.Transfers.withSwitches fun left => (countsExact_switches hr left).closeLayers hc).bind
      fun x hx => .pure rfl hx.under
  | read room =>
    exact hc.transfers_onFeeds fun s => (c.preserves_reader s).fill room (.start c s)
  | items count =>
    exact hc.transfers_onFeeds fun s => (c.preserves_reader s).take count (Cursor.Stays.start c s)
  | drain most =>
    exact hc.transfers_onFeeds fun s => (c.preserves_reader s).drain most #[] (Cursor.Stays.start c s)

end calls

namespace World

variable {w : World α}

def held (w : World α) : Nat → Nat := (w.cursors.map Cursor.counted).sum

/-- The invariant of a world: everything made is on the roster, and the store counts what clients hold,
besides `k`. -/
structure Invariant (r : Roster) (k : Nat → Nat) (w : World α) : Prop where
  store : Store.Invariant r (w.held + k) w.store
  slots : w.janitors.map Janitor.slot = List.range r.statistics.length
  statistics : w.janitors.map Janitor.statistics = r.statistics
  providers : ∀ p ∈ w.providers, p.Under r r.statistics.length
  cursors : ∀ c ∈ w.cursors, c.Under r r.statistics.length

theorem held_eraseIdx {i : Nat} {c : Cursor} (hc : w.cursors[i]? = some c) :
    w.held = held { w with cursors := w.cursors.eraseIdx i } + c.counted := by
  obtain ⟨hi, rfl⟩ := List.getElem?_eq_some_iff.mp hc
  have hperm := (List.getElem_cons_eraseIdx_perm hi).map Cursor.counted
  rw [held, ← hperm.sum_eq, List.map_cons, List.sum_cons, add_comm]
  rfl

theorem held_set {i : Nat} (hi : i < w.cursors.length) (d : Cursor) :
    held { w with cursors := w.cursors.set i d } =
      held { w with cursors := w.cursors.eraseIdx i } + d.counted := by
  have hperm := (List.set_perm_cons_eraseIdx hi d).map Cursor.counted
  rw [held, hperm.sum_eq, List.map_cons, List.sum_cons, add_comm]
  rfl

theorem held_append (w : World α) (cs : List Cursor) :
    held { w with cursors := w.cursors ++ cs } = w.held + (cs.map Cursor.counted).sum := by
  rw [held, List.map_append, List.sum_append]
  rfl

namespace Invariant

variable {k : Nat → Nat} {c : Cursor}

theorem start : Invariant (α := α) {} 0 {} where
  store := by
    refine ⟨fun feed c hc => ?_, rfl, rfl, ⟨fun feed c hc => ?_, fun slot j hj => ?_⟩, nofun,
      fun i t ht => ?_, nofun⟩
    · cases hc
    · cases hc
    · cases hj
    · cases ht
  slots := rfl
  statistics := rfl
  providers := nofun
  cursors := nofun

theorem switches_countsExact (hw : w.Invariant r k) (left : Nat) :
    (switches left : Switches α).CountsExact r :=
  hw.store.switches_countsExact left

theorem held_eq_zero (hw : w.Invariant r k) : w.held r.statistics.length = 0 := by
  rw [held, Pi.list_sum_apply, List.map_map]
  refine List.sum_eq_zero fun count hcount => ?_
  obtain ⟨c, hc, rfl⟩ := List.mem_map.mp hcount
  exact (hw.cursors c hc).below.counted_eq_zero le_rfl

theorem of_store (hw : w.Invariant r k) {k' : Nat → Nat} {m : Store α}
    (hm : Store.Invariant r (w.held + k') m) : Invariant r k' { w with store := m } :=
  ⟨hm, hw.slots, hw.statistics, hw.providers, hw.cursors⟩

theorem transfers (hw : w.Invariant r k) {f : Call α β} {l : β → Nat → Nat} {P : β → Prop}
    (hf : f.Transfers r r.statistics.length k l P) :
    Invariant r (l (f.run w.store).1) { w with store := (f.run w.store).2 } ∧ P (f.run w.store).1 :=
  ⟨hw.of_store (hw.store.transfers hf).1, (hw.store.transfers hf).2⟩

theorem neutral (hw : w.Invariant r k) {f : Call α β} (hf : f.Neutral r r.statistics.length) :
    Invariant r k { w with store := (f.run w.store).2 } := hw.of_store (hw.store.neutral hf)

theorem part (hw : w.Invariant r 0) {i : Nat} (hc : w.cursors[i]? = some c) :
    Invariant r c.counted { w with cursors := w.cursors.eraseIdx i } ∧ c.Under r r.statistics.length := by
  have hstore := hw.store
  rw [add_zero, held_eraseIdx hc] at hstore
  exact ⟨⟨hstore, hw.slots, hw.statistics, hw.providers,
    fun d hd => hw.cursors d (List.mem_of_mem_eraseIdx hd)⟩,
    hw.cursors c (List.mem_of_getElem? hc)⟩

theorem putBack {i : Nat} (hi : i < w.cursors.length)
    (hw : Invariant r c.counted { w with cursors := w.cursors.eraseIdx i })
    (hc : c.Under r r.statistics.length) : Invariant r 0 { w with cursors := w.cursors.set i c } where
  store := by
    rw [add_zero, held_set hi]
    exact hw.store
  slots := hw.slots
  statistics := hw.statistics
  providers := hw.providers
  cursors d hd := by
    rcases List.mem_cons.mp ((List.set_perm_cons_eraseIdx hi c).mem_iff.mp hd) with rfl | hd
    · exact hc
    · exact hw.cursors d hd

theorem hand {x : Outcome StreamError Cursor} (hw : w.Invariant r x.counted)
    (hx : ∀ d, x = .ok d → d.Under r r.statistics.length) :
    Invariant r 0 { w with cursors := w.cursors ++ x.toOption.toList } where
  store := by
    have hcounted : x.counted = (x.toOption.toList.map Cursor.counted).sum := by
      cases x with
      | error stop => rfl
      | ok c => exact List.sum_singleton.symm
    rw [add_zero, held_append, ← hcounted]
    exact hw.store
  slots := hw.slots
  statistics := hw.statistics
  providers := hw.providers
  cursors d hd := by
    rcases List.mem_append.mp hd with hd | hd
    · exact hw.cursors d hd
    · cases x with
      | error stop => cases hd
      | ok c => exact hx d (congrArg _ (List.mem_singleton.mp hd).symm)

theorem made {p : Option Provider} {m : Store α} (hw : w.Invariant r k) (hp : r.Made p r')
    (hm : Store.Invariant r' w.held m) :
    Invariant r' 0 { w with store := m, providers := w.providers ++ p.toList } where
  store := by
    rw [add_zero]
    exact hm
  slots := by
    have hslots := hw.slots
    rw [janitors] at hslots ⊢
    rw [List.filterMap_append, List.map_append, hslots, hp.statistics, List.length_append]
    cases p with
    | none => exact List.append_nil _
    | some p =>
      cases hj : p.janitor? with
      | none => simp [hj]
      | some j =>
        have hslot := hp.slot j hj
        simp [hj, hslot, List.range_succ]
  statistics := by
    have hstatistics := hw.statistics
    rw [janitors] at hstatistics ⊢
    rw [List.filterMap_append, List.map_append, hstatistics, hp.statistics]
    cases p with
    | none => rfl
    | some p =>
      cases hj : p.janitor? with
      | none => simp [hj]
      | some j => simp [hj]
  providers q hq := by
    have hle : r.statistics.length ≤ r'.statistics.length := hp.grows.statistics.length_le
    rcases List.mem_append.mp hq with hq | hq
    · exact ((hw.providers q hq).grow hp.grows).mono hle
    · exact hp.under q (Option.mem_toList.mp hq)
  cursors c hc := ((hw.cursors c hc).grow hp.grows).mono hp.grows.statistics.length_le

theorem source {spec : SourceSpec α} {source : Source α} {w' : World α} (hw : w.Invariant r 0)
    (h : w.source? spec = some (source, w')) :
    w'.Invariant r (source.cursor?.elim 0 Cursor.counted) ∧
      (∀ c, source.cursor? = some c → c.Under r r.statistics.length) ∧ w'.store = w.store := by
  cases spec with
  | ready source free =>
    cases h
    rw [free]
    exact ⟨hw, nofun, rfl⟩
  | chain i =>
    obtain ⟨c, hc, h⟩ := Option.map_eq_some_iff.mp h
    cases h
    obtain ⟨hparted, hunder⟩ := hw.part hc
    refine ⟨hparted, fun d hd => ?_, rfl⟩
    cases hd
    exact hunder

theorem of_registrations (hw : w.Invariant r k) (registrations : List Registration) :
    Invariant r k { w with registrations } :=
  ⟨hw.store, hw.slots, hw.statistics, hw.providers, hw.cursors⟩

theorem addScripted (hw : w.Invariant r 0) {script : Script} (reentrantOnOpen : script.ReentrantOnOpen)
    {inner : Provider}
    (hinner : inner ∈ w.providers) :
    Invariant r 0 (w.call (Store.addScripted script inner) fun p w =>
      { w with providers := w.providers ++ [p] }) := by
  have hstore : Store.Invariant r w.held w.store := (add_zero w.held) ▸ hw.store
  have hmade : r.Made (some ((Store.addScripted script inner).run w.store).1) r :=
    ⟨.refl r, (List.append_nil _).symm, fun p hp =>
      Option.some.inj hp ▸ ⟨reentrantOnOpen, hw.providers inner hinner⟩,
      nofun⟩
  exact hw.made hmade (hstore.neutral (Store.Invariant.neutral_addScripted script inner))

theorem addManaged (hw : w.Invariant r 0) {q : Nat} (hq : q < w.store.statistics.size) {hook : Hook}
    (hhook : hook.Wraps) {inner : Provider} (hinner : inner ∈ w.providers) :
    ∃ r', Invariant r' 0 (w.call (Store.addManaged q hook inner) fun p w =>
      { w with providers := w.providers ++ [p] }) := by
  have hstore : Store.Invariant r w.held w.store := (add_zero w.held) ▸ hw.store
  have hmade := Roster.Made.managed (q := q) hhook (hw.providers inner hinner)
  rw [hstore.janitors, ← run_addManaged q hook inner w.store] at hmade
  exact ⟨_, hw.made hmade (hstore.addManaged hw.held_eq_zero hq hook inner)⟩

theorem openCursor (hw : w.Invariant r 0) {p : Provider} (hp : p ∈ w.providers) :
    Invariant r 0 (w.call (withSwitches fun s => p.openCursor s) fun x w =>
      { w with cursors := w.cursors ++ x.toOption.toList }) := by
  obtain ⟨hopened, hunder⟩ := hw.transfers (f := withSwitches fun s => p.openCursor s)
    (.withSwitches fun left => (hw.switches_countsExact left).openCursor (hw.providers p hp) le_rfl
    (.inr le_rfl))
  exact hopened.hand hunder

end Invariant

theorem Invariant.perform (hw : w.Invariant r 0) (op : ClientOp α) : ∃ r', (w.perform op).Invariant r' 0 := by
  have hstore : Store.Invariant r w.held w.store := by
    have h := hw.store
    rwa [add_zero] at h
  have hstep := w.step op
  generalize w.perform op = after at hstep ⊢
  cases hstep with
  | idle op => exact ⟨r, hw⟩
  | addStatistics => exact ⟨r, hw.of_store hw.store.newStatistics⟩
  | addManager config => exact ⟨r, hw.of_store (hw.store.addManager config)⟩
  | addBase config source w' hsource =>
    obtain ⟨hw', hunder, -⟩ := hw.source hsource
    obtain ⟨r', hmade, hkept, -⟩ := hw'.store.makeBase hunder config
    exact ⟨r', hw'.made hmade hkept⟩
  | addScripted script nonReentrant inner hinner =>
    exact ⟨r, hw.addScripted nonReentrant.reentrantOnOpen (List.mem_of_getElem? hinner)⟩
  | addManaged q inner hinner hq =>
    exact hw.addManaged hq (show Hook.plain.Wraps from trivial) (List.mem_of_getElem? hinner)
  | openCursor p hp => exact ⟨r, hw.openCursor (List.mem_of_getElem? hp)⟩
  | cursorOp t c hc =>
    obtain ⟨hparted, hunder⟩ := hw.part hc
    obtain ⟨hturned, hunder⟩ := hparted.transfers (t.transfers hstore.sorted hunder)
    exact ⟨r, hturned.putBack (w := { w with store := ((t.perform c).run w.store).2 })
      (List.getElem?_eq_some_iff.mp hc).1 hunder⟩
  | drop c hc =>
    obtain ⟨hparted, hunder⟩ := hw.part hc
    exact ⟨r, (hparted.transfers (f := withSwitches fun s => c.drop s)
      (.withSwitches fun left => (hw.switches_countsExact left).dropCursor hunder)).1⟩
  | close p hp =>
    exact ⟨r, hw.neutral (.withSwitches fun left =>
      (hw.switches_countsExact left).closeProvider (hw.providers p (List.mem_of_getElem? hp)))⟩
  | release p hp =>
    exact ⟨r, hw.neutral (.withSwitches fun left =>
      (hw.switches_countsExact left).releaseProvider (hw.providers p (List.mem_of_getElem? hp)))⟩
  | manage manager context t source w' ht hsource =>
    obtain ⟨hw', hunder, hsame⟩ := hw.source hsource
    rw [← hsame] at ht
    obtain ⟨r', hmade, hkept⟩ := Store.Invariant.makeManaged ht hw'.store hw'.held_eq_zero hunder context
    exact ⟨r', (hw'.made hmade hkept).of_registrations _⟩
  | manageProvider manager context inner hinner =>
    obtain ⟨r', hmade, hkept⟩ := hstore.manageProvider hw.held_eq_zero
      (hw.providers inner (List.mem_of_getElem? hinner)) manager context
    exact ⟨r', (hw.made hmade hkept).of_registrations _⟩
  | complete manager context =>
    exact ⟨r, hw.of_store
      (Store.Invariant.complete (hw.switches_countsExact w.store.endings) hw.store manager context).1⟩
  | dispose manager order =>
    exact ⟨r, hw.of_store
      (Store.Invariant.completeAll (hw.switches_countsExact w.store.endings) hw.store manager order .skipped)⟩

theorem Invariant.run (hw : w.Invariant r 0) (ops : List (ClientOp α)) :
    ∃ r', (w.run ops).Invariant r' 0 := by
  induction ops generalizing w r with
  | nil => exact ⟨r, hw⟩
  | cons op ops ih =>
    obtain ⟨r', hw'⟩ := hw.perform op
    exact ih hw'

def sharing (w : World α) (q : Nat) : List Janitor := w.janitors.filter (·.statistics = q)

/-- The unreleased layers of a janitor, on cursors that clients hold or sources read from. -/
def live (w : World α) (slot : Nat) : Nat := w.held slot + w.store.feeds.lentCounts slot

/-- Janitors have distinct slots, all counters and statistics are exact, and no decrement has saturated.
-/
structure Accounted (w : World α) : Prop where
  slots : w.janitors.map Janitor.slot = List.range w.janitors.length
  janitors : ∀ j ∈ w.janitors, (w.store.janitor j.slot).openCursors = w.live j.slot ∧
    (w.store.janitor j.slot).clipped = false
  providers : ∀ q < w.store.statistics.size, (w.store.statisticsAt q).providers =
    ((w.sharing q).filter fun j => !(w.store.janitor j.slot).closed).length
  cursors : ∀ q < w.store.statistics.size, (w.store.statisticsAt q).cursors =
    (((w.sharing q).filter fun j => !(w.store.janitor j.slot).released).map fun j =>
      (w.store.janitor j.slot).openCursors).sum
  exact : ∀ q < w.store.statistics.size, (w.store.statisticsAt q).clipped = false

theorem sum_live (m : Store α) (js : List Janitor) :
    (js.map fun j => (m.janitor j.slot).live).sum =
      (js.filter fun j => !(m.janitor j.slot).closed).length := by
  induction js with
  | nil => rfl
  | cons j js ih =>
    rw [List.map_cons, List.sum_cons, ih, JanitorState.live]
    cases hclosed : (m.janitor j.slot).closed with
    | true => simp [hclosed]
    | false => simp [hclosed, add_comm]

theorem sum_due (m : Store α) (js : List Janitor) :
    (js.map fun j => (m.janitor j.slot).due).sum =
      ((js.filter fun j => !(m.janitor j.slot).released).map fun j =>
        (m.janitor j.slot).openCursors).sum := by
  induction js with
  | nil => rfl
  | cons j js ih =>
    rw [List.map_cons, List.sum_cons, ih, JanitorState.due]
    cases hreleased : (m.janitor j.slot).released with
    | true => simp [hreleased]
    | false => simp [hreleased]

theorem total_eq_sum {js : List Janitor} (hslots : js.map Janitor.slot = List.range js.length)
    (hr : js.map Janitor.statistics <+: r.statistics) (q : Nat) (f : Nat → Nat) :
    r.total q js.length f = ((js.filter (·.statistics = q)).map fun j => f j.slot).sum := by
  induction js using List.reverseRecOn with
  | nil => rfl
  | append_singleton js j ih =>
    rw [List.length_append, List.length_singleton, List.range_succ, List.map_append] at hslots
    obtain ⟨hslots, hslot⟩ := List.append_inj' hslots rfl
    rw [List.map_append] at hr
    have hstatistics : r.statistics[js.length]? = some j.statistics := by
      refine getElem?_mono hr ?_
      rw [List.getElem?_append_right (List.length_map _).le, List.length_map, Nat.sub_self]
      rfl
    have hj : j.slot = js.length := List.singleton_inj.mp hslot
    rw [List.length_append, List.length_singleton, Roster.total_succ, hstatistics,
      ih hslots ((List.prefix_append _ _).trans hr), List.filter_append, List.map_append,
      List.sum_append]
    by_cases hq : j.statistics = q
    · simp [hq, hj]
    · simp [hq]

theorem Invariant.total_eq_sum {k : Nat → Nat} (hw : w.Invariant r k) (q : Nat) (f : Nat → Nat) :
    r.total q r.statistics.length f = ((w.sharing q).map fun j => f j.slot).sum := by
  have hlength : r.statistics.length = w.janitors.length := by
    rw [← hw.statistics, List.length_map]
  have hslots : w.janitors.map Janitor.slot = List.range w.janitors.length := hlength ▸ hw.slots
  rw [hlength, World.total_eq_sum hslots ⟨[], (List.append_nil _).trans hw.statistics⟩, sharing]

theorem Invariant.accounted (hw : w.Invariant r 0) : w.Accounted := by
  have hlength : r.statistics.length = w.janitors.length := by
    rw [← hw.statistics, List.length_map]
  have hslots : w.janitors.map Janitor.slot = List.range w.janitors.length := hlength ▸ hw.slots
  have hstore : Store.Invariant r w.held w.store := by
    have h := hw.store
    rwa [add_zero] at h
  refine ⟨hslots, fun j hj => ?_, fun q hq => ?_, fun q hq => ?_, fun q hq => (hstore.countsExact q hq).exact⟩
  · have hslot : j.slot ∈ List.range r.statistics.length := hw.slots ▸ List.mem_map_of_mem hj
    obtain ⟨hopen, hclipped⟩ := hstore.open_eq (List.mem_range.mp hslot)
    exact ⟨hopen.trans (add_comm _ _), hclipped⟩
  · rw [(hstore.countsExact q hq).providers, hw.total_eq_sum, sum_live]
    rfl
  · rw [(hstore.countsExact q hq).cursors, hw.total_eq_sum, sum_due]
    rfl

theorem accounts_exact (ops : List (ClientOp α)) : (({} : World α).run ops).Accounted := by
  obtain ⟨r, hw⟩ := Invariant.start.run ops
  exact hw.accounted

end World
end Replay
