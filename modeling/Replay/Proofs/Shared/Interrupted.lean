import Replay.Proofs.Shared.Shape
import Replay.Proofs.Shared.Terminal

/-!
A read interrupted by a fault of the source. The items before the fault are stored as if only they had
been asked for, no cursor has moved, and the next pull is the one after the fault.
-/
namespace Replay

open Store

variable {α σ : Type}

/-- Errors and panics of the source, as opposed to those of the buffer or the cursor. -/
def Stop.isFault : Stop StreamError → Bool
  | .error (.source _) | .panic _ => true
  | .error _ => false

/-- The error or panic that a pull brings. -/
def Pull.fault? : Pull α → Option (Stop StreamError)
  | .failed e => some (.error (.source e))
  | .panicked p => some (.panic p)
  | .item _ | .finished => none

theorem Pull.ending_of_fault? {p : Pull α} {stop : Stop StreamError} (h : p.fault? = some stop)
    (e : Option StreamError) : p.ending e = some (.error stop) := by
  cases p with
  | item a => cases h
  | finished => cases h
  | failed e =>
    cases h
    rfl
  | panicked p =>
    cases h
    rfl

theorem Failure.isFault_error (f : Failure) : (Stop.error f.error).isFault = false := by
  cases f <;> rfl

namespace Tap

/-- A tap over a list. -/
def handing : Tap α (List α) where
  pull
    | [] => (.finished, [])
    | a :: rest => (.item a, rest)
  note _ rest := rest

@[simp] theorem noteAll_handing (es : List Event) (rest : List α) : handing.noteAll es rest = rest := by
  induction es with
  | nil => rfl
  | cons e es ih => exact ih

end Tap

namespace Buffer

variable {tap : Tap α σ} {b b' : Buffer α} {s s' : σ}

theorem isFault_refusal {e : StreamError} (h : b.refusal = some e) : (Stop.error e).isFault = false := by
  unfold refusal at h
  split at h
  · rename_i f _
    cases h
    exact f.isFault_error
  · split at h
    · cases h
      rfl
    · cases h

theorem isFault_fail (f : Failure) : (Stop.error (b.fail f).1).isFault = false := by
  unfold fail
  split
  · rename_i first _
    exact first.isFault_error
  · exact f.isFault_error

/-- The part of the state that the result of a fill depends on. -/
def state (b : Buffer α) : Option Failure × Bool × Bool := (b.failure, b.closed, b.exhausted)

theorem makeRoom_cases (tap : Tap α σ) (b : Buffer α) (s : σ) :
    ((b.makeRoom tap s).1 = none ∧ (b.makeRoom tap s).2.1.state = b.state) ∨
      ∃ e, (b.makeRoom tap s).1 = some e ∧ (Stop.error e).isFault = false := by
  unfold makeRoom extend
  split
  · exact .inl ⟨rfl, rfl⟩
  · split
    · exact .inr ⟨_, rfl, isFault_fail _⟩
    · exact .inl ⟨rfl, rfl⟩

theorem keep_cases (tap : Tap α σ) (b : Buffer α) (a : α) (s : σ) :
    ((b.keep tap a s).1 = none ∧ (b.keep tap a s).2.1.state = b.state) ∨
      ∃ e, (b.keep tap a s).1 = some e ∧ (Stop.error e).isFault = false := by
  unfold keep
  split
  · dsimp only
    split
    · split
      · exact .inr ⟨_, rfl, isFault_fail _⟩
      · exact .inl ⟨rfl, rfl⟩
    · exact .inl ⟨rfl, rfl⟩
  · exact .inr ⟨_, rfl, rfl⟩

theorem append_cases (tap : Tap α σ) (b : Buffer α) (a : α) (s : σ) :
    ((b.append tap a s).1 = none ∧ (b.append tap a s).2.1.state = b.state) ∨
      ∃ e, (b.append tap a s).1 = some e ∧ (Stop.error e).isFault = false := by
  have hroom := makeRoom_cases tap b s
  unfold append
  rcases hr : b.makeRoom tap s with ⟨_ | e, b₁, s₁⟩
  · rw [hr] at hroom
    rcases hroom with ⟨-, hstate⟩ | ⟨e, he, -⟩
    · have hstate' : b₁.state = b.state := hstate
      rw [← hstate']
      exact keep_cases tap b₁ a s₁
    · cases he
  · rw [hr] at hroom
    rcases hroom with ⟨he, -⟩ | ⟨e', he, hfault⟩
    · cases he
    · cases he
      exact .inr ⟨e, rfl, hfault⟩

/-- A fill cut short by a fault, after the given items. -/
structure Cut (b b' : Buffer α) (outcomes : Nat → Pull α) (count : Nat) (items : List α)
    (stop : Stop StreamError) : Prop where
  brought : ∀ i (h : i < items.length), outcomes (count + i) = .item items[i]
  fault : (outcomes (count + items.length)).fault? = some stop
  filled : b.fill .handing items.length items = (.ok true, b', [])
  state : b'.state = b.state
  live : b'.exhausted = false

variable {outcomes : Nat → Pull α} {At : σ → Nat → List Event → Prop} {count : Nat}
  {stop : Stop StreamError}

theorem Cut.nil (hlive : b.exhausted = false) (hfault : (outcomes count).fault? = some stop) :
    Cut b b outcomes count [] stop :=
  ⟨fun _ h => absurd h (Nat.not_lt_zero _), hfault, rfl, rfl, hlive⟩

theorem Cut.cons {b₁ : Buffer α} {a : α} {items : List α} {es : List Event}
    (hlive : b.exhausted = false) (ha : outcomes count = .item a)
    (hb : b.append .record a [] = (none, b₁, es)) (hstate : b₁.state = b.state)
    (h : Cut b₁ b' outcomes (count + 1) items stop) : Cut b b' outcomes count (a :: items) stop where
  brought := by
    rintro (_ | i) hi
    · exact ha
    · have hitem := h.brought i (Nat.lt_of_succ_lt_succ hi)
      rwa [Nat.add_assoc, Nat.add_comm 1] at hitem
  fault := by
    have hfault := h.fault
    rwa [Nat.add_assoc, Nat.add_comm 1] at hfault
  filled := by
    have happend : b.append .handing a items = (none, b₁, items) := by
      rw [append_eq, hb, Tap.noteAll_handing]
    rw [List.length_cons, fill, if_neg (by simp [hlive])]
    simp only [Tap.handing] at happend ⊢
    rw [happend]
    exact h.filled
  state := h.state.trans hstate
  live := h.live

theorem fill_cut (hp : tap.Plays outcomes At) (n : Nat) {es : List Event} (hat : At s count es)
    (hfill : b.fill tap n s = (.error stop, b', s')) (hstop : stop.isFault) :
    ∃ items fs, At s' (count + items.length + 1) fs ∧ Cut b b' outcomes count items stop := by
  induction n generalizing b s count es with
  | zero => cases hfill
  | succ n ih =>
    cases hlive : b.exhausted with
    | true =>
      rw [fill, hlive, if_pos rfl] at hfill
      cases hfill
    | false =>
      obtain ⟨s₁, hat₁, hsucc⟩ := fill_succ hp hat hlive (Prod.mk.eta (p := b.absorb (outcomes count))).symm n
      rw [hfill] at hsucc
      cases ho : outcomes count with
      | item a =>
        rw [ho] at hsucc hat₁
        rcases append_cases .record b a [] with ⟨hnone, hstate⟩ | ⟨e, he, hfault⟩
        · have hb : b.append .record a [] = (none, _, _) := Prod.ext hnone rfl
          have hnone' : (b.absorb (.item a)).1 = none := hnone
          rw [hnone'] at hsucc
          obtain ⟨items, fs, hat', hcut⟩ := ih hat₁ hsucc.symm
          refine ⟨a :: items, fs, ?_, .cons hlive ho hb hstate hcut⟩
          rwa [List.length_cons, show count + (items.length + 1) + 1 = count + 1 + items.length + 1 by
            omega]
        · have he' : (b.absorb (.item a)).1 = some e := he
          rw [he'] at hsucc
          cases hsucc
          rw [hfault] at hstop
          cases hstop
      | finished =>
        rw [ho] at hsucc
        cases hsucc
      | failed c =>
        rw [ho] at hsucc hat₁
        cases hsucc
        exact ⟨[], _, hat₁, .nil hlive (by rw [ho]; rfl)⟩
      | panicked p =>
        rw [ho] at hsucc hat₁
        cases hsucc
        exact ⟨[], _, hat₁, .nil hlive (by rw [ho]; rfl)⟩

theorem fill_reports (hp : tap.Plays outcomes At) (n : Nat) {es : List Event} (hat : At s count es)
    {r : Outcome StreamError Bool} (hfill : b.fill tap n s = (r, b', s')) :
    ∃ more fs, At s' more fs ∧ ∀ j, count ≤ j → j < more → ∀ stop,
      (outcomes j).fault? = some stop → r = .error stop := by
  induction n generalizing b s count es with
  | zero =>
    cases hfill
    exact ⟨count, es, hat, fun j hle hlt => absurd hlt (Nat.not_lt_of_le hle)⟩
  | succ n ih =>
    cases hlive : b.exhausted with
    | true =>
      rw [fill, hlive, if_pos rfl] at hfill
      cases hfill
      exact ⟨count, es, hat, fun j hle hlt => absurd hlt (Nat.not_lt_of_le hle)⟩
    | false =>
      obtain ⟨s₁, hat₁, hsucc⟩ := fill_succ hp hat hlive (Prod.mk.eta (p := b.absorb (outcomes count))).symm n
      rw [hfill] at hsucc
      -- a pull that ends the fill is the last one; any other has brought an item
      cases hend : (outcomes count).ending (b.absorb (outcomes count)).1 with
      | some r' =>
        rw [hend] at hsucc
        cases hsucc
        refine ⟨count + 1, _, hat₁, fun j hle hlt stop hfault => ?_⟩
        obtain rfl : j = count := Nat.le_antisymm (Nat.le_of_lt_succ hlt) hle
        rw [Pull.ending_of_fault? hfault] at hend
        cases hend
        rfl
      | none =>
        rw [hend] at hsucc
        obtain ⟨more, fs, hat', hreports⟩ := ih hat₁ hsucc.symm
        refine ⟨more, fs, hat', fun j hle hlt stop hfault => ?_⟩
        rcases hle.eq_or_lt with rfl | hlt'
        · rw [Pull.ending_of_fault? hfault] at hend
          cases hend
        · exact hreports j hlt' hlt stop hfault

theorem hasNext_of_bucketFor {offset : Nat} (h : b.bucketFor tap offset s = (.error stop, b', s'))
    (hstop : stop.isFault) : b.hasNext tap offset s = (.error stop, b', s') := by
  unfold bucketFor at h
  rcases hr : b.hasNext tap offset s with ⟨stop' | _ | _, b₁, s₁⟩
  · rw [hr] at h
    cases h
    rfl
  · rw [hr] at h
    cases h
  · rw [hr] at h
    dsimp only at h
    split at h
    · cases h
      rw [isFault_fail] at hstop
      cases hstop
    · split at h
      · cases h
      · cases h
        cases hrefusal : b'.refusal with
        | none =>
          rw [hrefusal] at hstop
          cases hstop
        | some e =>
          rw [hrefusal, Option.getD_some, isFault_refusal hrefusal] at hstop
          cases hstop

end Buffer

theorem Head.hasNext_of_next {tap : Tap α σ} {h h' : Head} {b b' : Buffer α} {s s' : σ}
    {stop : Stop StreamError} (hnext : h.next tap b s = (.error stop, h', b', s'))
    (hstop : stop.isFault) : h' = h ∧ b.hasNext tap h.position s = (.error stop, b', s') := by
  have hpresent : ∀ item : Option α, h.present item = .error stop → False := by
    rintro (_ | a) hitem
    · cases hitem
      cases hstop
    · cases hitem
  unfold next at hnext
  split at hnext
  · cases hnext
    cases hstop
  · split at hnext
    · rename_i e he
      cases hnext
      rw [Buffer.isFault_refusal he] at hstop
      cases hstop
    · unfold readAt lookUp at hnext
      split at hnext
      · cases hnext
      · rename_i hread
        cases hnext
        split at hread
        · rename_i item _
          exact (hpresent item (congrArg Prod.fst hread)).elim
        · rcases hr : b.bucketFor tap h.position s with ⟨stop' | _ | held, b₁, s₁⟩
          · rw [hr] at hread
            cases hread
            exact ⟨rfl, Buffer.hasNext_of_bucketFor hr hstop⟩
          · rw [hr] at hread
            cases hread
            cases hstop
          · rw [hr] at hread
            exact (hpresent _ (congrArg Prod.fst hread)).elim

/-- The error or panic of an operation that asks about an offset. -/
def Reply.stop? : Reply α → Option (Stop StreamError)
  | .flag _ (.error stop) | .bucket _ (.error stop) | .item _ (.error stop) => some stop
  | _ => none

namespace Shared

/-- The state after an interrupted operation; the buffer is open and can go on pulling. -/
structure Interrupted (s s' : Shared α) (t : Supply α) (items : List α) (stop : Stop StreamError) :
    Prop where
  buffer : ∃ b b', s.buffer? = some b ∧ s'.buffer? = some b' ∧
    Buffer.Cut b b' t.outcomes s.pulls items stop ∧ b'.isClosed = false
  pulls : s'.pulls = s.pulls + items.length + 1
  source : s'.source? = some (t.source s'.pulls)
  cursors : s'.cursors = s.cursors

end Shared

namespace Supply

variable {t : Supply α} {base : Array Event} {s : Shared α} {k : Progress} {stop : Stop StreamError}

theorem Reached.hasNext_of_stopped_cursorOp (h : t.Reached base s k) {i : Nat} {id : ProviderId} {head : Head}
    (hc : s.cursors[i]? = some (.plain s.feed id head)) {cursorOp : CursorOp}
    (hop : cursorOp = .hasNext ∨ cursorOp = .next)
    (hreply : (s.use (.cursorOp i cursorOp)).1.stop? = some stop)
    (hstop : stop.isFault) :
    ∃ b' feeds, (t.kept k).hasNext (Feeds.tap Feeds.draw s.feed) head.position
        (s.store.feeds.setBuffer s.feed none) = (.error stop, b', feeds) ∧
      (s.use (.cursorOp i cursorOp)).2 = { s with store.feeds := feeds.setBuffer s.feed (some b') } := by
  have hb : s.store.feeds.buffer? s.feed = some (t.kept k) := h.atProgress.buffer?_eq
  obtain ⟨hlt, hget⟩ := List.getElem?_eq_some_iff.mp hc
  have hset : s.cursors.set i (.plain s.feed id head) = s.cursors := by
    rw [← hget]
    exact List.set_getElem_self hlt
  rcases hop with rfl | rfl
  · rcases hr : head.hasNext (Feeds.tap Feeds.draw s.feed) (t.kept k)
      (s.store.feeds.setBuffer s.feed none) with ⟨stop' | found, b', feeds⟩
    · simp only [Shared.use, hc, CursorOp.perform, onFeeds, Call.run_bind, Call.run_modifyGet,
        Call.run_pure, Cursor.hasNext, Cursor.hasNextBy, Feeds.onBuffer, hb, hr, Reply.stop?,
        Option.some.injEq, hset] at hreply ⊢
      subst hreply
      unfold Head.hasNext at hr
      split at hr
      · cases hr
        cases hstop
      · exact ⟨b', feeds, hr, rfl⟩
    · simp only [Shared.use, hc, CursorOp.perform, onFeeds, Call.run_bind, Call.run_modifyGet,
        Call.run_pure, Cursor.hasNext, Cursor.hasNextBy, Feeds.onBuffer, hb, hr,
        Reply.stop?] at hreply
      cases hreply
  · rcases hr : head.next (Feeds.tap Feeds.draw s.feed) (t.kept k)
      (s.store.feeds.setBuffer s.feed none) with ⟨stop' | a, head', b', feeds⟩
    · simp only [Shared.use, hc, CursorOp.perform, Cursor.read, onFeeds, Call.run_bind,
        Call.run_modifyGet, Call.run_pure, Cursor.next, Cursor.nextBy, hb, hr, Reply.stop?,
        Option.some.injEq] at hreply ⊢
      subst hreply
      obtain ⟨rfl, hhas⟩ := Head.hasNext_of_next hr hstop
      exact ⟨b', feeds, hhas, by rw [hset]⟩
    · simp only [Shared.use, hc, CursorOp.perform, Cursor.read, onFeeds, Call.run_bind,
        Call.run_modifyGet, Call.run_pure, Cursor.next, Cursor.nextBy, hb, hr,
        Reply.stop?] at hreply
      cases hreply

/-- Whichever operation asks about an offset, the fault comes from `has_next` there. -/
theorem Reached.hasNext_of_stop (h : t.Reached base s k) {u : SharedOp} {offset : Nat}
    (hu : s.asked? u = some offset) (hreply : (s.use u).1.stop? = some stop) (hstop : stop.isFault) :
    ∃ b' feeds, (t.kept k).hasNext (Feeds.tap Feeds.draw s.feed) offset
        (s.store.feeds.setBuffer s.feed none) = (.error stop, b', feeds) ∧
      (s.use u).2 = { s with store.feeds := feeds.setBuffer s.feed (some b') } := by
  have hb : s.store.feeds.buffer? s.feed = some (t.kept k) := h.atProgress.buffer?_eq
  cases u with
  | addCursor provider => cases hu
  | close => cases hu
  | hasNext p =>
    cases hu
    rcases hr : (t.kept k).hasNext (Feeds.tap Feeds.draw s.feed) offset
      (s.store.feeds.setBuffer s.feed none) with ⟨stop' | found, b', feeds⟩
    · simp only [Shared.use, Shared.call, onFeeds, Call.run_modifyGet, Feeds.onBuffer, hb, hr,
        Reply.stop?, Option.some.injEq] at hreply ⊢
      exact ⟨b', feeds, by rw [hreply], rfl⟩
    · simp only [Shared.use, Shared.call, onFeeds, Call.run_modifyGet, Feeds.onBuffer, hb, hr,
        Reply.stop?] at hreply
      cases hreply
  | bucketFor p =>
    cases hu
    rcases hr : (t.kept k).bucketFor (Feeds.tap Feeds.draw s.feed) offset
      (s.store.feeds.setBuffer s.feed none) with ⟨stop' | found, b', feeds⟩
    · simp only [Shared.use, Shared.call, onFeeds, Call.run_modifyGet, Feeds.onBuffer, hb, hr,
        Reply.stop?, Option.some.injEq] at hreply ⊢
      subst hreply
      exact ⟨b', feeds, Buffer.hasNext_of_bucketFor hr hstop, rfl⟩
    · simp only [Shared.use, Shared.call, onFeeds, Call.run_modifyGet, Feeds.onBuffer, hb, hr,
        Reply.stop?] at hreply
      cases hreply
  | cursorOp i cursorOp =>
    obtain ⟨id, head, hc, rfl, hop⟩ := h.cursorOp_of_asked hu
    exact h.hasNext_of_stopped_cursorOp hc hop hreply hstop

/-- A fault leaves the shared buffer as if only the items before it had been read. -/
theorem Reached.interrupted (h : t.Reached base s k) {u : SharedOp} {offset : Nat}
    (hu : s.asked? u = some offset) (hreply : (s.use u).1.stop? = some stop) (hstop : stop.isFault) :
    ∃ items, s.Interrupted (s.use u).2 t items stop := by
  obtain ⟨b', feeds, hhas, hstore⟩ := h.hasNext_of_stop hu hreply hstop
  rw [hstore]
  -- only an open buffer pulls, so a failed or closed one meets no fault
  have hrefusal : (t.kept k).refusal = none := by
    cases hrefusal : (t.kept k).refusal with
    | none => rfl
    | some e =>
      rw [Buffer.hasNext_of_refusal hrefusal] at hhas
      cases hhas
      rw [Buffer.isFault_refusal hrefusal] at hstop
      cases hstop
  have hopen := Buffer.refusal_eq_none_iff.mp hrefusal
  obtain ⟨closed, count⟩ := k
  obtain rfl : closed = false := by
    cases closed with
    | false => rfl
    | true => cases hopen
  rw [Buffer.hasNext, hrefusal] at hhas
  obtain ⟨items, fs, hat, hcut⟩ :=
    Buffer.fill_cut (t.plays s.feed base) _ h.atProgress.feeding hhas hstop
  have hpulls : s.pulls = count := h.pulls_eq
  have hcell := Feeds.cell_modify hat.1 fun c => { c with buffer := some b' }
  refine ⟨items, ⟨⟨_, b', h.buffer?_eq, Feeds.buffer?_eq hcell, hpulls ▸ hcut, ?_⟩, ?_, ?_, rfl⟩⟩
  · have hstate := hcut.state
    simp only [Buffer.state, Prod.mk.injEq] at hstate
    rw [Buffer.isClosed, hstate.1, hstate.2.1]
    exact hopen
  · rw [hpulls]
    simp only [Shared.pulls, Feeds.setBuffer, hcell]
    rfl
  · have hpulls' : Shared.pulls { s with store.feeds := feeds.setBuffer s.feed (some b') } =
        count + items.length + 1 := by
      simp only [Shared.pulls, Feeds.setBuffer, hcell]
      rfl
    rw [hpulls']
    exact Feeds.source?_eq hcell

theorem Answers.reports {feed offset count : Nat} {feeds feeds' : Feeds α} {l : Progress}
    {r : Outcome StreamError Bool} (ha : t.Answers feed feeds ⟨false, count⟩ offset l r feeds')
    (h : t.AtProgress feed base feeds ⟨false, count⟩) (h' : t.AtProgress feed base feeds' l)
    {j : Nat} (hle : count ≤ j) (hlt : j < l.count) (hfault : (t.outcomes j).fault? = some stop) :
    r = .error stop := by
  have hb := h.buffer?_eq
  have hhas := ha.hasNext
  simp only [Feeds.onBuffer, hb] at hhas
  rcases hr : (t.kept ⟨false, count⟩).hasNext (Feeds.tap Feeds.draw feed) offset
    (feeds.setBuffer feed none) with ⟨r', b', f⟩
  rw [hr, Prod.mk.injEq] at hhas
  obtain ⟨rfl, hfeeds⟩ := hhas
  -- the buffer refuses without a pull, or pulls as far as needed
  cases hrefusal : (t.kept ⟨false, count⟩).refusal with
  | some e =>
    rw [Buffer.hasNext_of_refusal hrefusal, Prod.mk.injEq, Prod.mk.injEq] at hr
    obtain ⟨-, rfl, rfl⟩ := hr
    rw [Feeds.setBuffer_setBuffer hb] at hfeeds
    have hcells := h.cell
    rw [hfeeds, h'.cell] at hcells
    have hcount : l.count = count :=
      congrArg (fun c : Feed α => c.tally.pulls) (Option.some.inj hcells)
    omega
  | none =>
    rw [Buffer.hasNext, hrefusal] at hr
    obtain ⟨more, fs, hat, hreports⟩ :=
      Buffer.fill_reports (t.plays feed base) _ h.feeding hr
    have hcell := Feeds.cell_modify hat.1 fun c => { c with buffer := some b' }
    have hcells := h'.cell
    rw [← hfeeds, Feeds.setBuffer, hcell] at hcells
    have hcount : more = l.count :=
      congrArg (fun c : Feed α => c.tally.pulls) (Option.some.inj hcells)
    exact hreports j hle (hcount ▸ hlt) stop hfault

theorem Reached.cursorOp_answered (hvalid : t.config.validate = .ok ()) (h : t.Reached base s k) {i : Nat}
    {id : ProviderId} {head : Head} (hc : s.cursors[i]? = some (.plain s.feed id head)) {cursorOp : CursorOp}
    (hop : cursorOp = .hasNext ∨ cursorOp = .next) :
    (s.use (.cursorOp i cursorOp)).2.pulls = s.pulls ∨
      ∃ l r feeds, t.AtProgress s.feed base feeds l ∧
        t.Answers s.feed s.store.feeds k head.position l r feeds ∧
        (s.use (.cursorOp i cursorOp)).2.pulls = l.count ∧
        ∀ stop, r = .error stop → (s.use (.cursorOp i cursorOp)).1.stop? = some stop := by
  obtain ⟨l, r, feeds, hprogress, hanswers⟩ := h.atProgress.answers hvalid head.position
  have hpulls : ∀ (m : Store α) cursors, Shared.pulls ⟨{ m with feeds }, s.feed, cursors⟩ = l.count := by
    intro m cursors
    simp [Shared.pulls, hprogress.cell, cell]
  have hb := h.atProgress.buffer?_eq
  cases hclosed : head.closed with
  | true =>
    have hobstacle : (Cursor.plain s.feed id head).obstacle? = some .cursorClosed := if_pos hclosed
    have hidle : (Cursor.plain s.feed id head).obstacle? = none →
        (t.kept k).refusal = some .cursorClosed := by
      rw [hobstacle]
      rintro ⟨⟩
    refine .inl ?_
    rcases hop with rfl | rfl
    · have hhas : (Cursor.plain s.feed id head).hasNext s.store.feeds = (.raise _, s.store.feeds) :=
        Cursor.hasNextBy_of_refusal hb hidle
      simp only [Shared.use, hc, CursorOp.perform, onFeeds, Call.run_bind, Call.run_modifyGet,
        Call.run_pure, hhas]
      rfl
    · have hnext : (Cursor.plain s.feed id head).next s.store.feeds =
          (.raise _, .plain s.feed id head, s.store.feeds) := Cursor.nextBy_of_refusal hb hidle
      simp only [Shared.use, hc, CursorOp.perform, Cursor.read, onFeeds, Call.run_bind,
        Call.run_modifyGet, Call.run_pure, hnext]
      rfl
  | false =>
    refine .inr ⟨l, r, feeds, hprogress, hanswers, ?_⟩
    rcases hop with rfl | rfl
    · have hhas : (Cursor.plain s.feed id head).hasNext s.store.feeds = (r, feeds) := by
        rw [← hanswers.hasNext]
        unfold Cursor.hasNext Cursor.hasNextBy Head.hasNext
        simp [hclosed]
      simp only [Shared.use, hc, CursorOp.perform, onFeeds, Call.run_bind, Call.run_modifyGet,
        Call.run_pure, hhas]
      exact ⟨hpulls _ _, fun stop hr => hr ▸ rfl⟩
    · obtain ⟨head', -, -, hnext⟩ := hanswers.next id head hclosed rfl
      simp only [Shared.use, hc, CursorOp.perform, Cursor.read, onFeeds, Call.run_bind,
        Call.run_modifyGet, Call.run_pure, Cursor.next, hnext]
      exact ⟨hpulls _ _, fun stop hr => hr ▸ rfl⟩

theorem Reached.answered (hvalid : t.config.validate = .ok ()) (h : t.Reached base s k) {u : SharedOp}
    {offset : Nat} (hu : s.asked? u = some offset) :
    (s.use u).2.pulls = s.pulls ∨
      ∃ l r feeds, t.AtProgress s.feed base feeds l ∧
        t.Answers s.feed s.store.feeds k offset l r feeds ∧ (s.use u).2.pulls = l.count ∧
        ∀ stop, r = .error stop → (s.use u).1.stop? = some stop := by
  obtain ⟨l, r, feeds, hprogress, hanswers⟩ := h.atProgress.answers hvalid offset
  have hpulls : ∀ (m : Store α) cursors, Shared.pulls ⟨{ m with feeds }, s.feed, cursors⟩ = l.count := by
    intro m cursors
    simp [Shared.pulls, hprogress.cell, cell]
  cases u with
  | addCursor provider => cases hu
  | close => cases hu
  | hasNext p =>
    cases hu
    simp only [Shared.use, Shared.call, onFeeds, Call.run_modifyGet, hanswers.hasNext]
    exact .inr ⟨l, r, feeds, hprogress, hanswers, hpulls _ _, fun stop hr => hr ▸ rfl⟩
  | bucketFor p =>
    cases hu
    simp only [Shared.use, Shared.call, onFeeds, Call.run_modifyGet, hanswers.bucketFor]
    exact .inr ⟨l, r, feeds, hprogress, hanswers, hpulls _ _, fun stop hr => hr ▸ rfl⟩
  | cursorOp i cursorOp =>
    obtain ⟨id, head, hc, rfl, hop⟩ := h.cursorOp_of_asked hu
    exact h.cursorOp_answered hvalid hc hop

theorem Reached.reports (hvalid : t.config.validate = .ok ()) (h : t.Reached base s k) {u : SharedOp}
    {offset : Nat} (hu : s.asked? u = some offset) {j : Nat} (hle : s.pulls ≤ j)
    (hlt : j < (s.use u).2.pulls) (hfault : (t.outcomes j).fault? = some stop) :
    (s.use u).1.stop? = some stop := by
  rcases h.answered hvalid hu with hidle | ⟨l, r, feeds, hprogress, hanswers, hpulls, hstop⟩
  · omega
  · rw [h.pulls_eq] at hle
    rw [hpulls] at hlt
    obtain ⟨closed, count⟩ := k
    cases closed with
    | true =>
      obtain ⟨rfl, -, -⟩ := hanswers.shut rfl
      exact absurd hlt (Nat.not_lt_of_le hle)
    | false => exact hstop stop (hanswers.reports h.atProgress hprogress hle hlt hfault)

end Supply
end Replay
