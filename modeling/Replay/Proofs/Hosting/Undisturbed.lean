import Replay.Proofs.Hosting.CursorOps
import Replay.Proofs.Hosting.Registering

/-!
Closing a managed provider does not affect its issued cursors. Two runs are compared, with and without
the close: up to the last cursor's release they read the same buffer, and afterwards no cursor reads.
The buffer closes with the last cursor, or with the provider if no cursor is open.
-/
namespace Replay

open Store

variable {α : Type}

/-- Operations on a provider and on its cursors. -/
inductive HostOp where
  | openCursor
  | cursorOp (cursor : Nat) (cursorOp : CursorOp)
  | drop (cursor : Nat)
  | close

namespace HostOp

def isOpening : HostOp → Bool
  | openCursor => true
  | _ => false

def isClosing : HostOp → Bool
  | close => true
  | _ => false

def toClientOp : HostOp → ClientOp α
  | openCursor => .openCursor 0
  | cursorOp i t => .cursorOp i t
  | drop i => .drop i
  | close => .close 0

end HostOp

namespace World

/-- A world with a single provider. -/
def hosting (m : Store α) (p : Provider) : World α := { store := m, providers := [p] }

def runHost (w : World α) (xs : List HostOp) : World α := w.run (xs.map HostOp.toClientOp)

/-- The world `w'`, in which the provider may have been closed, against the world `w`, in which it was
not. -/
structure Undisturbed (feed : Nat) (ownership : Ownership) (closed : Bool) (w' w : World α) : Prop where
  cursors : w'.cursors = w.cursors
  cursorOps : ∀ i t, (w'.cursorOp i t).1 = (w.cursorOp i t).1
  sizes : ∀ c ∈ w.cursors, c.size w'.store.feeds = c.size w.store.feeds
  readable : ∀ (i : Nat) (c : Cursor), w'.cursors[i]? = some c → c.isReleased = false →
    ∀ t, ¬ (w'.cursorOp i t).1.HasError .bufferClosed
  buffer : ∃ b, w'.store.feeds.buffer? feed = some b ∧ b.ownership = ownership ∧
    (b.closed ↔ closed ∧ ∀ c ∈ w'.cursors, c.isReleased) ∧
    w'.store.feeds.closes feed = if b.closed ∧ ownership = .owned then 1 else 0

def unreleased (w : World α) : Nat := w.cursors.countP fun c => !c.isReleased

end World

namespace Host

variable {a : Host} {ownership : Ownership} {closed : Bool} {count : Nat} {m m' : Store α}
  {w w' : World α} {cs : List Cursor} {c d : Cursor}

/-- The store with the close against the store without: either the provider is in use in both and their
feeds are equal, or the last cursor was released. -/
inductive CoupledStores (a : Host) (ownership : Ownership) (count : Nat) : Bool → Store α → Store α → Prop
  | inUse {closed : Bool} {m' m : Store α} (h : a.InUse ownership closed count m')
      (hwaits : closed → count ≠ 0) (hsame : m'.feeds.SameCells m.feeds) :
      CoupledStores a ownership count closed m' m
  | spent {m' m : Store α} {b : Buffer α} (hcount : count = 0) (hb : m.feeds.buffer? a.feed = some b)
      (h : a.Spent b m') : CoupledStores a ownership count true m' m

namespace CoupledStores

theorem leave (h : a.CoupledStores ownership (count + 1) closed m' m)
    (hm : a.InUse ownership false (count + 1) m) :
    a.CoupledStores ownership count closed (a.leave m') (a.leave m) := by
  obtain ⟨-, hfeeds⟩ := hm.leave_unclosed
  cases h with
  | spent hcount => exact absurd hcount (Nat.succ_ne_zero _)
  | inUse h hwaits hsame =>
    by_cases hlast : closed ∧ count = 0
    · obtain ⟨rfl, rfl⟩ := hlast
      obtain ⟨b, hb, -, -⟩ := hm.buffer
      refine .spent rfl (b := b) ?_ (h.leave_last ((hsame.buffer? _).trans hb))
      rw [hfeeds, hb]
    · obtain ⟨h', hfeeds'⟩ := h.leave hlast
      refine .inUse h' (fun hc hzero => hlast ⟨hc, hzero⟩) ?_
      rw [hfeeds, hfeeds']
      exact hsame

theorem close (h : a.CoupledStores ownership count closed m' m) (hm : a.InUse ownership false count m) :
    a.CoupledStores ownership count true (((switches m'.endings).close a.janitor).run m').2 m := by
  cases h with
  | spent hcount hb h =>
    rw [run_close_switches _ h.closed]
    exact .spent hcount hb h
  | inUse h hwaits hsame =>
    cases closed with
    | true =>
      rw [run_close_switches _ h.closed]
      exact .inUse h hwaits hsame
    | false =>
      by_cases hzero : count = 0
      · subst hzero
        obtain ⟨b, hb, -, -⟩ := hm.buffer
        exact .spent rfl hb (h.close_idle ((hsame.buffer? _).trans hb))
      · obtain ⟨h', hcells⟩ := h.close hzero
        exact .inUse h' (fun _ => hzero) (hcells.trans hsame)

theorem readable (h : a.CoupledStores ownership (count + 1) closed m' m) :
    a.InUse ownership closed (count + 1) m' ∧ m'.feeds.SameCells m.feeds := by
  cases h with
  | inUse h hwaits hsame => exact ⟨h, hsame⟩
  | spent hcount => exact absurd hcount (Nat.succ_ne_zero _)

/-- An operation on an unreleased cursor has the same result in both stores. -/
theorem take (h : a.CoupledStores ownership (count + 1) closed m' m)
    (hm : a.InUse ownership false (count + 1) m) (hc : a.Issued false c) (t : CursorOp) :
    ∃ (r : Reply α) (d : Cursor) (m₁' m₁ : Store α) (released : Bool),
      (t.perform c).run m' = ((r, d), m₁') ∧ (t.perform c).run m = ((r, d), m₁) ∧ a.Issued released d ∧
      a.InUse ownership false (count + if released then 0 else 1) m₁ ∧
      a.CoupledStores ownership (count + if released then 0 else 1) closed m₁' m₁ := by
  obtain ⟨hm', hsame⟩ := h.readable
  rcases t.reads_or with ht | ⟨position, rfl⟩ | rfl | rfl
  · obtain ⟨hreply, hcursor, hfeeds⟩ :=
      ht.beside Cursor.alongside_sameCells (c := c) m' m ⟨rfl, hsame⟩
    obtain ⟨hstays, hbare⟩ := ht.stays c m
    obtain ⟨hstays', -⟩ := ht.stays c m'
    have hstore := ht.store c m
    have hstore' := ht.store c m'
    refine ⟨((t.perform c).run m).1.1, ((t.perform c).run m).1.2, ((t.perform c).run m').2,
      ((t.perform c).run m).2, false, Prod.ext (Prod.ext hreply hcursor) rfl, rfl, hc.of_bare hbare, ?_, ?_⟩
    · rw [hstore]
      exact hm.reads hstays
    · rw [hstore, hstore']
      exact .inUse (hm'.reads hstays') (fun _ => Nat.succ_ne_zero _) hfeeds
  · rw [CursorOp.perform]
    cases hs : c.seek position with
    | error e => exact ⟨_, _, _, _, false, rfl, rfl, hc, hm, h⟩
    | ok d => exact ⟨_, _, _, _, false, rfl, rfl, hc.of_bare (Cursor.bare_seek hs), hm, h⟩
  -- release and close both count the cursor out
  · obtain ⟨head, rfl⟩ := hc
    exact ⟨_, _, _, _, true, hm'.perform_release head, hm.perform_release head, ⟨_, rfl⟩,
      hm.leave_unclosed.1, h.leave hm⟩
  · obtain ⟨head, rfl⟩ := hc
    exact ⟨_, _, _, _, true, hm'.perform_close head, hm.perform_close head, ⟨_, rfl⟩,
      hm.leave_unclosed.1, h.leave hm⟩

end CoupledStores

/-- The two worlds have the same cursors, and coupled stores. -/
structure CoupledWorlds (a : Host) (ownership : Ownership) (closed : Bool) (w' w : World α) : Prop where
  providers' : w'.providers = [a.provider]
  providers : w.providers = [a.provider]
  cursors : w'.cursors = w.cursors
  issued : ∀ c ∈ w.cursors, a.Issued c.isReleased c
  inUse : a.InUse ownership false w.unreleased w.store
  coupledStores : a.CoupledStores ownership w.unreleased closed w'.store w.store

end Host

namespace World

variable {w : World α} {c : Cursor} {i : Nat}

theorem unreleased_eq_zero : w.unreleased = 0 ↔ ∀ c ∈ w.cursors, c.isReleased := by
  simp [unreleased, List.countP_eq_zero]

theorem unreleased_eraseIdx (hc : w.cursors[i]? = some c) :
    w.unreleased = unreleased { w with cursors := w.cursors.eraseIdx i } +
      if c.isReleased then 0 else 1 := by
  obtain ⟨hi, rfl⟩ := List.getElem?_eq_some_iff.mp hc
  have hperm := (List.getElem_cons_eraseIdx_perm hi).countP_eq fun c => !c.isReleased
  rw [unreleased, ← hperm, List.countP_cons]
  cases w.cursors[i].isReleased with
  | true => rfl
  | false => rfl

theorem unreleased_set (hi : i < w.cursors.length) (d : Cursor) :
    unreleased { w with cursors := w.cursors.set i d } =
      unreleased { w with cursors := w.cursors.eraseIdx i } + if d.isReleased then 0 else 1 := by
  have hperm := (List.set_perm_cons_eraseIdx hi d).countP_eq fun c => !c.isReleased
  rw [unreleased, hperm, List.countP_cons]
  cases d.isReleased with
  | true => rfl
  | false => rfl

end World

namespace Host.CoupledWorlds

variable {a : Host} {ownership : Ownership} {closed : Bool} {w w' : World α}

theorem replace (h : a.CoupledWorlds ownership closed w' w) {m m' : Store α} {cs : List Cursor}
    (hissued : ∀ c ∈ cs, a.Issued c.isReleased c)
    (hm : a.InUse ownership false (World.unreleased { w with cursors := cs }) m)
    (hf : a.CoupledStores ownership (World.unreleased { w with cursors := cs }) closed m' m) :
    a.CoupledWorlds ownership closed { w' with store := m', cursors := cs }
      { w with store := m, cursors := cs } :=
  ⟨h.providers', h.providers, rfl, hissued, hm, hf⟩

theorem cursorOp (h : a.CoupledWorlds ownership closed w' w) (i : Nat) (t : CursorOp) :
    (w'.cursorOp i t).1 = (w.cursorOp i t).1 ∧
      a.CoupledWorlds ownership closed (w'.cursorOp i t).2 (w.cursorOp i t).2 := by
  unfold World.cursorOp
  rw [h.cursors]
  cases hc : w.cursors[i]? with
  | none => exact ⟨rfl, h⟩
  | some c =>
    obtain ⟨hi, hget⟩ := List.getElem?_eq_some_iff.mp hc
    have hissued := h.issued c (List.mem_of_getElem? hc)
    have herase := World.unreleased_eraseIdx hc
    cases hr : c.isReleased with
    | true =>
      rw [hr] at hissued
      obtain ⟨r, hrun', hrun⟩ := hissued.perform_released t w'.store w.store
      have hset : w.cursors.set i c = w.cursors := by
        rw [← hget]
        exact List.set_getElem_self hi
      simp only [hrun', hrun, hset]
      exact ⟨trivial, h.replace h.issued h.inUse h.coupledStores⟩
    | false =>
      rw [hr] at hissued herase
      obtain ⟨r, d, m₁', m₁, released, hrun', hrun, hd, hm, hf⟩ :=
        CoupledStores.take (herase ▸ h.coupledStores) (herase ▸ h.inUse) hissued t
      have hcount := World.unreleased_set (w := w) hi d
      rw [hd.isReleased] at hcount
      simp only [hrun', hrun]
      refine ⟨trivial, h.replace (fun c hc => ?_) (hcount ▸ hm) (hcount ▸ hf)⟩
      rcases List.mem_or_eq_of_mem_set hc with hmem | rfl
      · exact h.issued c hmem
      · rw [hd.isReleased]
        exact hd

theorem drop (h : a.CoupledWorlds ownership closed w' w) (i : Nat) :
    a.CoupledWorlds ownership closed (w'.perform (.drop i)) (w.perform (.drop i)) := by
  simp only [World.perform, World.call, h.cursors]
  cases hc : w.cursors[i]? with
  | none => exact h
  | some c =>
    have hissued := h.issued c (List.mem_of_getElem? hc)
    have herase := World.unreleased_eraseIdx hc
    have hrest : ∀ d ∈ w.cursors.eraseIdx i, a.Issued d.isReleased d := fun d hd =>
      h.issued d (List.mem_of_mem_eraseIdx hd)
    cases hr : c.isReleased with
    | true =>
      rw [hr] at hissued herase
      dsimp only
      rw [hissued.run_drop, hissued.run_drop]
      have hsame : w.unreleased = World.unreleased { w with cursors := w.cursors.eraseIdx i } := herase
      exact h.replace hrest (hsame ▸ h.inUse) (hsame ▸ h.coupledStores)
    | false =>
      rw [hr] at hissued herase
      have hcoupled : a.CoupledStores ownership _ closed w'.store w.store := herase ▸ h.coupledStores
      have hinUse : a.InUse ownership false _ w.store := herase ▸ h.inUse
      dsimp only
      rw [hcoupled.readable.1.run_drop hissued, hinUse.run_drop hissued]
      exact h.replace hrest hinUse.leave_unclosed.1
        (hcoupled.leave hinUse)

theorem close (h : a.CoupledWorlds ownership closed w' w) :
    a.CoupledWorlds ownership true (w'.perform (.close 0)) w := by
  have hp : w'.providers[0]? = some a.provider := by
    rw [h.providers']
    rfl
  simp only [World.perform, hp, World.call]
  exact ⟨h.providers', h.providers, h.cursors, h.issued, h.inUse, h.coupledStores.close h.inUse⟩

theorem openCursor (h : a.CoupledWorlds ownership false w w) :
    a.CoupledWorlds ownership false (w.perform (.openCursor 0)) (w.perform (.openCursor 0)) := by
  have hp : w.providers[0]? = some a.provider := by
    rw [h.providers]
    rfl
  simp only [World.perform, hp, World.call]
  rcases h.inUse.run_openCursor with ⟨e, hrun⟩ | ⟨m, hrun, hm⟩
  · have hsame : w.cursors ++ (Except.error e : Outcome StreamError Cursor).toOption.toList =
        w.cursors := List.append_nil _
    simp only [hrun, hsame]
    exact h.replace h.issued h.inUse h.coupledStores
  · have hadded : w.cursors ++ (Except.ok (a.cursor false {}) : Outcome StreamError Cursor).toOption.toList =
        w.cursors ++ [a.cursor false {}] := rfl
    have hcount : World.unreleased { w with cursors := w.cursors ++ [a.cursor false {}] } =
        w.unreleased + 1 := List.countP_append
    simp only [hrun, hadded]
    refine h.replace (fun c hc => ?_) (hcount ▸ hm) ?_
    · rcases List.mem_append.mp hc with hc | hc
      · exact h.issued c hc
      · rw [List.mem_singleton.mp hc]
        exact ⟨{}, rfl⟩
    · rw [hcount]
      exact .inUse hm (fun hclosed => absurd hclosed Bool.false_ne_true) rfl

theorem step (h : a.CoupledWorlds ownership closed w' w) {x : HostOp} (hx : x.isOpening = false) :
    a.CoupledWorlds ownership (closed || x.isClosing) (w'.perform x.toClientOp)
      (w.runHost ([x].filter fun x => !x.isClosing)) := by
  cases x with
  | openCursor => cases hx
  | close =>
    rw [show (closed || HostOp.close.isClosing) = true from Bool.or_true closed]
    exact h.close
  | cursorOp i t =>
    rw [show (closed || (HostOp.cursorOp i t).isClosing) = closed from Bool.or_false closed]
    exact (h.cursorOp i t).2
  | drop i =>
    rw [show (closed || (HostOp.drop i).isClosing) = closed from Bool.or_false closed]
    exact h.drop i

theorem run (after : List HostOp) (hafter : ∀ x ∈ after, x.isOpening = false)
    (h : a.CoupledWorlds ownership closed w' w) :
    a.CoupledWorlds ownership (closed || after.any HostOp.isClosing) (w'.runHost after)
      (w.runHost (after.filter fun x => !x.isClosing)) := by
  induction after generalizing closed w w' with
  | nil =>
    rw [List.any_nil, Bool.or_false]
    exact h
  | cons x after ih =>
    have hrest := ih (fun y hy => hafter y (List.mem_cons_of_mem x hy))
      (h.step (hafter x List.mem_cons_self))
    rw [List.any_cons, ← Bool.or_assoc]
    have hfilter : w.runHost ((x :: after).filter fun x => !x.isClosing) =
        (w.runHost ([x].filter fun x => !x.isClosing)).runHost
          (after.filter fun x => !x.isClosing) := by
      rw [← List.singleton_append, List.filter_append, World.runHost, List.map_append, World.run,
        List.foldl_append]
      rfl
    rw [hfilter]
    exact hrest

theorem before (xs : List HostOp) (hxs : ∀ x ∈ xs, x.isClosing = false)
    (h : a.CoupledWorlds ownership false w w) : a.CoupledWorlds ownership false (w.runHost xs)
    (w.runHost xs) := by
  induction xs generalizing w with
  | nil => exact h
  | cons x xs ih =>
    refine ih (fun y hy => hxs y (List.mem_cons_of_mem x hy)) (w := w.perform x.toClientOp) ?_
    cases x with
    | openCursor => exact h.openCursor
    | cursorOp i t => exact (h.cursorOp i t).2
    | drop i => exact h.drop i
    | close => cases hxs _ List.mem_cons_self

theorem isOpen (h : a.CoupledWorlds ownership closed w' w) {c : Cursor} (hc : c ∈ w'.cursors)
    (hlive : c.isReleased = false) : w'.store.feeds.isOpen c.feed := by
  rw [h.cursors] at hc
  have hcount : w.unreleased ≠ 0 := by
    intro hzero
    rw [World.unreleased_eq_zero.mp hzero c hc] at hlive
    cases hlive
  obtain ⟨count, hcount⟩ := Nat.exists_eq_succ_of_ne_zero hcount
  rw [(h.issued c hc).feed]
  exact (CoupledStores.readable (hcount ▸ h.coupledStores)).1.isOpen

theorem size_eq (h : a.CoupledWorlds ownership closed w' w) {c : Cursor} (hc : c ∈ w.cursors) :
    c.size w'.store.feeds = c.size w.store.feeds := by
  rw [Cursor.size, Cursor.size, (h.issued c hc).feed]
  cases h.coupledStores with
  | inUse _ _ hsame => rw [hsame.buffer?]
  | spent _ hb hspent =>
    rw [hb, hspent.buffer]
    rfl

/-- The buffer is closed iff the provider is and no cursor is unreleased; then an owned source was
closed too. -/
theorem buffer (h : a.CoupledWorlds ownership closed w' w) :
    ∃ b, w'.store.feeds.buffer? a.feed = some b ∧ b.ownership = ownership ∧
      (b.closed ↔ closed ∧ ∀ c ∈ w'.cursors, c.isReleased) ∧
      w'.store.feeds.closes a.feed = if b.closed ∧ ownership = .owned then 1 else 0 := by
  rw [h.cursors, ← World.unreleased_eq_zero]
  obtain ⟨b, hb, -, hownership⟩ := h.inUse.buffer
  cases h.coupledStores with
  | inUse hm hwaits hsame =>
    obtain ⟨b', hb', hopen, hownership'⟩ := hm.buffer
    refine ⟨b', hb', hownership', ?_, ?_⟩
    · rw [hopen]
      exact ⟨nofun, fun hall => absurd hall.2 (hwaits hall.1)⟩
    · rw [hm.closes, hopen]
      rfl
  | spent hcount hb' hspent =>
    obtain rfl := Option.some.inj (hb.symm.trans hb')
    refine ⟨b.close, hspent.buffer, hownership, ⟨fun _ => ⟨rfl, hcount⟩, fun _ => rfl⟩, ?_⟩
    rw [hspent.closes, hownership]
    simp only [Buffer.close, true_and]

theorem toUndisturbed (h : a.CoupledWorlds ownership closed w' w) :
    World.Undisturbed a.feed ownership closed w' w where
  cursors := h.cursors
  cursorOps i t := (h.cursorOp i t).1
  sizes _ := h.size_eq
  readable i c hc hlive t := by
    have hrun : (w'.cursorOp i t).1 = ((t.perform c).run w'.store).1.1 := by
      unfold World.cursorOp
      rw [hc]
      rfl
    rw [hrun]
    exact t.not_hasError_closed (h.isOpen (List.mem_of_getElem? hc) hlive)
  buffer := h.buffer

end Host.CoupledWorlds

/-- Closing a managed provider over a buffer never disturbs its issued cursors, for every source and
every way the provider was created: with and without the close, all cursors have the same replies and
states, if no more cursors are opened. -/
theorem World.undisturbed {registrar : Registrar} {m m₀ : Store α} {source : Source α} {p : Provider}
    (hmade : (registrar.make source).run m = (some p, m₀)) {before after : List HostOp}
    (hbefore : ∀ x ∈ before, x.isClosing = false) (hafter : ∀ x ∈ after, x.isOpening = false) :
    ∃ config, registrar.config? m = some config ∧
      World.Undisturbed m.feeds.cells.size config.ownership (after.any HostOp.isClosing)
        ((World.hosting m₀ p).runHost (before ++ after))
        ((World.hosting m₀ p).runHost (before ++ after.filter fun x => !x.isClosing)) := by
  obtain ⟨a, config, hconfig, hfeed, rfl, hinUse⟩ := Registrar.inUse_make hmade
  have hstart : a.CoupledWorlds config.ownership false (World.hosting m₀ a.provider)
      (World.hosting m₀ a.provider) :=
    ⟨rfl, rfl, rfl, nofun, hinUse, .inUse hinUse nofun rfl⟩
  have hbefore := hstart.before before hbefore
  have hafter := hbefore.run after hafter
  have happend : ∀ xs, (World.hosting m₀ a.provider).runHost (before ++ xs) =
      ((World.hosting m₀ a.provider).runHost before).runHost xs := by
    intro xs
    rw [runHost, List.map_append, World.run, List.foldl_append]
    rfl
  rw [happend, happend, ← hfeed]
  exact ⟨config, hconfig, hafter.toUndisturbed⟩

/-- Two cursors, one of which reads on after the provider was closed. -/
theorem World.undisturbed_two : ∃ (p : Provider) (m₀ : Store Nat),
    (Registrar.make (.bare #[1, 2, 3]) (.user ⟨2, 2, .unbounded, .owned⟩ 0)).run {} = (some p, m₀) ∧
    (∀ x ∈ [HostOp.openCursor, .openCursor, .cursorOp 0 .next], x.isClosing = false) ∧
    (∀ x ∈ [HostOp.close, .drop 0, .close, .cursorOp 0 (.items 4), .cursorOp 0 .release],
      x.isOpening = false) ∧
    World.Undisturbed 0 .owned true
      ((World.hosting m₀ p).runHost ([.openCursor, .openCursor, .cursorOp 0 .next] ++
        [.close, .drop 0, .close, .cursorOp 0 (.items 4), .cursorOp 0 .release]))
      ((World.hosting m₀ p).runHost ([.openCursor, .openCursor, .cursorOp 0 .next] ++
        [.drop 0, .cursorOp 0 (.items 4), .cursorOp 0 .release])) := by
  obtain ⟨p, m₀, hmade⟩ : ∃ (p : Provider) (m₀ : Store Nat),
      (Registrar.make (.bare #[1, 2, 3]) (.user ⟨2, 2, .unbounded, .owned⟩ 0)).run {} = (some p, m₀) :=
    ⟨_, _, rfl⟩
  have hbefore : ∀ x ∈ [HostOp.openCursor, .openCursor, .cursorOp 0 .next], x.isClosing = false := by
    simp [HostOp.isClosing]
  have hafter : ∀ x ∈ [HostOp.close, .drop 0, .close, .cursorOp 0 (.items 4), .cursorOp 0 .release],
      x.isOpening = false := by
    simp [HostOp.isOpening]
  obtain ⟨config, hconfig, h⟩ := World.undisturbed hmade hbefore hafter
  cases hconfig
  exact ⟨p, m₀, hmade, hbefore, hafter, h⟩

end Replay
