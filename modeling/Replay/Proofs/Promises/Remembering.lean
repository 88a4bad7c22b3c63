import Replay.Proofs.Promises.Upkeep
import Replay.Proofs.Unlogged

/-!
The cached bucket of a cursor is not observable. If cursors forget it at any points of a run, all
replies and the final state are the same.
-/
namespace List.Forall₂

variable {α β : Type} {R : α → β → Prop} {l : List α} {k : List β}

theorem getElem?_rel (h : List.Forall₂ R l k) (i : Nat) : Option.Rel R l[i]? k[i]? := by
  induction h generalizing i with
  | nil => exact .none
  | cons hab _ ih =>
    cases i with
    | zero => exact .some hab
    | succ i => exact ih i

theorem set (h : List.Forall₂ R l k) (i : Nat) {a : α} {b : β} (hab : R a b) :
    List.Forall₂ R (l.set i a) (k.set i b) := by
  induction h generalizing i with
  | nil => exact .nil
  | cons hcd hrest ih =>
    cases i with
    | zero => exact .cons hab hrest
    | succ i => exact .cons hcd (ih i)

theorem eraseIdx (h : List.Forall₂ R l k) (i : Nat) : List.Forall₂ R (l.eraseIdx i) (k.eraseIdx i) := by
  induction h generalizing i with
  | nil => exact .nil
  | cons hab hrest ih =>
    cases i with
    | zero => exact hrest
    | succ i => exact .cons hab (ih i)

theorem modify_left (h : List.Forall₂ R l k) (i : Nat) {f : α → α} (hf : ∀ a b, R a b → R (f a) b) :
    List.Forall₂ R (l.modify i f) k := by
  induction h generalizing i with
  | nil => cases i <;> exact .nil
  | cons hab hrest ih =>
    cases i with
    | zero => exact .cons (hf _ _ hab) hrest
    | succ i => exact .cons hab (ih i)

end List.Forall₂

namespace Replay

open Store

variable {α β γ : Type} {marked : Bool}

/-- The head without its cached bucket; `marked` if it was forgotten by `release`. -/
def Head.erased (marked : Bool) (h : Head) : Head :=
  if marked then h.release else { h with cached := none }

def Cursor.erased (marked : Bool) : Cursor → Cursor
  | plain feed provider head => plain feed provider (head.erased marked)
  | managed janitor released inner => managed janitor released (inner.erased marked)
  | watched slot act inner => watched slot act (inner.erased marked)

/-- Equal up to the cached bucket, and the released flag if `marked`. -/
structure Head.SameButHandle (marked : Bool) (h d : Head) : Prop where
  position : h.position = d.position
  closed : h.closed = d.closed
  released : marked = false → h.released = d.released

inductive Cursor.SameButHandle (marked : Bool) : Cursor → Cursor → Prop
  | plain {feed : Nat} {provider : ProviderId} {h d : Head} (heads : h.SameButHandle marked d) :
    SameButHandle marked (.plain feed provider h) (.plain feed provider d)
  | managed {janitor : Janitor} {released : Bool} {c d : Cursor} (inner : SameButHandle marked c d) :
    SameButHandle marked (.managed janitor released c) (.managed janitor released d)
  | watched {slot : Nat} {act : Act} {c d : Cursor} (inner : SameButHandle marked c d) :
    SameButHandle marked (.watched slot act c) (.watched slot act d)

namespace Head.SameButHandle

variable {σ : Type} {tap : Tap α σ} {b : Buffer α} {s : σ} {h d : Head}

theorem refl (h : Head) : h.SameButHandle marked h := ⟨rfl, rfl, fun _ => rfl⟩

theorem erased (he : h.SameButHandle marked d) : (h.erased marked).SameButHandle marked d := by
  cases marked with
  | false => exact ⟨he.position, he.closed, he.released⟩
  | true => exact ⟨he.position, he.closed, nofun⟩

theorem release (he : h.SameButHandle marked d) : h.release.SameButHandle marked d.release :=
  ⟨he.position, he.closed, fun _ => rfl⟩

theorem close (he : h.SameButHandle marked d) : h.close.SameButHandle marked d.close :=
  ⟨he.position, rfl, he.released⟩

theorem hasNext (he : h.SameButHandle marked d) (tap : Tap α σ) : h.hasNext tap = d.hasNext tap := by
  funext b s
  rw [Head.hasNext, Head.hasNext, he.closed, he.position]

theorem brings (he : h.SameButHandle marked d) (b : Buffer α) (r : Outcome StreamError Bool) :
    (h.brings b r).1 = (d.brings b r).1 ∧ (h.brings b r).2.SameButHandle marked (d.brings b r).2 := by
  rcases r with stop | _ | _
  · exact ⟨rfl, he⟩
  · exact ⟨by rw [Head.brings, Head.brings, he.position], he⟩
  · have hposition := he.position
    refine ⟨?_, congrArg (· + 1) hposition, he.closed, he.released⟩
    simp only [Head.brings, Head.present, hposition]

theorem next (he : h.SameButHandle marked d) (hb : b.Consistent) (tap : Tap α σ) (s : σ) : ∃ r h' d' b' s',
    h.next tap b s = (r, h', b', s') ∧ d.next tap b s = (r, d', b', s') ∧ h'.SameButHandle marked d' := by
  cases hclosed : d.closed with
  | true =>
    exact ⟨_, h, d, b, s, next_of_closed (he.closed.trans hclosed) b s, next_of_closed hclosed b s, he⟩
  | false =>
    rcases hhas : b.hasNext tap d.position s with ⟨r, b', s'⟩
    obtain ⟨hr, hd⟩ := he.brings b' r
    refine ⟨_, _, _, b', s', ?_, next_eq hb hclosed hhas, hd⟩
    rw [next_eq hb (he.closed.trans hclosed) (he.position.symm ▸ hhas), hr]

end Head.SameButHandle

/-- Equal effects, and results related by `E`. -/
def Store.Call.SameButHandle (E : β → β → Prop) (f g : Call α β) : Prop :=
  ∀ m, E (f.run m).1 (g.run m).1 ∧ (f.run m).2 = (g.run m).2

namespace Store.Call.SameButHandle

variable {E : β → β → Prop} {E' : γ → γ → Prop} {f g : Call α β} {k l : β → Call α γ}

theorem pure {x y : β} (h : E x y) : Call.SameButHandle E (Pure.pure x : Call α β) (Pure.pure y) :=
  fun _ => ⟨h, rfl⟩

theorem bind (h : Call.SameButHandle E f g) (hk : ∀ x y, E x y → Call.SameButHandle E' (k x) (l y)) :
    Call.SameButHandle E' (f >>= k) (g >>= l) := by
  intro m
  obtain ⟨hx, hm⟩ := h m
  rw [Call.run_bind, Call.run_bind, hm]
  exact hk _ _ hx _

theorem after {k l : β → Call α γ} (f : Call α β) (hk : ∀ x, Call.SameButHandle E' (k x) (l x)) :
    Call.SameButHandle E' (f >>= k) (f >>= l) := fun _ => hk _ _

end Store.Call.SameButHandle

namespace Cursor.SameButHandle

variable {draw : Feeds.Draw α} {s : Feeds α} {c d : Cursor} {w : Switches α}

/-- Equal results, and cursors equal up to the cached bucket. -/
def Along (marked : Bool) (x y : β × Cursor) : Prop := x.1 = y.1 ∧ x.2.SameButHandle marked y.2

theorem refl (c : Cursor) : c.SameButHandle marked c := by
  induction c with
  | plain feed provider head => exact .plain (.refl head)
  | managed janitor released inner ih => exact .managed ih
  | watched slot act inner ih => exact .watched ih

theorem erased (h : c.SameButHandle marked d) : (c.erased marked).SameButHandle marked d := by
  induction h with
  | plain heads => exact .plain heads.erased
  | managed inner ih => exact .managed ih
  | watched inner ih => exact .watched ih

theorem position (h : c.SameButHandle marked d) : c.position = d.position := by
  induction h with
  | plain heads => exact heads.position
  | managed inner ih => exact ih
  | watched inner ih => exact ih

theorem hasNextBy (h : c.SameButHandle marked d) (draw : Feeds.Draw α) (s : Feeds α) :
    c.hasNextBy draw s = d.hasNextBy draw s := by
  induction h with
  | plain heads => rw [Cursor.hasNextBy, heads.hasNext, Cursor.hasNextBy]
  | managed inner ih => rw [Cursor.hasNextBy, ih, Cursor.hasNextBy]
  | watched inner ih => exact ih

theorem nextBy (h : c.SameButHandle marked d) (hs : s.Consistent) (draw : Feeds.Draw α) : ∃ r c' d' s',
    c.nextBy draw s = (r, c', s') ∧ d.nextBy draw s = (r, d', s') ∧ c'.SameButHandle marked d' := by
  induction h with
  | @plain feed provider h d heads =>
    cases hb : s.buffer? feed with
    | none =>
      exact ⟨.raise .bufferClosed, .plain feed provider h, .plain feed provider d, s,
        by simp only [Cursor.nextBy, hb], by simp only [Cursor.nextBy, hb], .plain heads⟩
    | some b =>
      obtain ⟨r, h', d', b', s', hh, hd, he⟩ :=
        heads.next (hs feed b hb) (Feeds.tap draw feed) (s.setBuffer feed none)
      exact ⟨r, .plain feed provider h', .plain feed provider d', s'.setBuffer feed (some b'),
        by simp only [Cursor.nextBy, hb, hh],
        by simp only [Cursor.nextBy, hb, hd], .plain he⟩
  | @managed janitor released c d inner ih =>
    cases released with
    | true => exact ⟨_, _, _, s, rfl, rfl, .managed inner⟩
    | false =>
      obtain ⟨r, c', d', s', hc, hd, he⟩ := ih
      refine ⟨r, .managed janitor false c', .managed janitor false d', s', ?_, ?_, .managed he⟩
      · rw [Cursor.nextBy, if_neg Bool.false_ne_true, hc]
      · rw [Cursor.nextBy, if_neg Bool.false_ne_true, hd]
  | @watched slot act c d inner ih =>
    obtain ⟨r, c', d', s', hc, hd, he⟩ := ih
    refine ⟨r, .watched slot act c', .watched slot act d', s', ?_, ?_, .watched he⟩
    · rw [Cursor.nextBy, hc]
    · rw [Cursor.nextBy, hd]

theorem seek (h : c.SameButHandle marked d) (position : Nat) :
    (∃ c' d', c.seek position = .ok c' ∧ d.seek position = .ok d' ∧ c'.SameButHandle marked d') ∨
      ∃ e, c.seek position = .error e ∧ d.seek position = .error e := by
  induction h with
  | @plain feed provider h d heads =>
    rw [Cursor.seek, Cursor.seek, Head.seek, Head.seek, heads.closed]
    cases hclosed : d.closed with
    | true => exact .inr ⟨_, rfl, rfl⟩
    | false => exact .inl ⟨_, _, rfl, rfl, .plain ⟨rfl, rfl, heads.released⟩⟩
  | @managed janitor released c d inner ih =>
    cases released with
    | true => exact .inr ⟨_, rfl, rfl⟩
    | false =>
      rw [Cursor.seek, Cursor.seek]
      rcases ih with ⟨c', d', hc, hd, he⟩ | ⟨e, hc, hd⟩
      · rw [hc, hd]
        exact .inl ⟨_, _, rfl, rfl, .managed he⟩
      · rw [hc, hd]
        exact .inr ⟨e, rfl, rfl⟩
  | @watched slot act c d inner ih =>
    rw [Cursor.seek, Cursor.seek]
    rcases ih with ⟨c', d', hc, hd, he⟩ | ⟨e, hc, hd⟩
    · rw [hc, hd]
      exact .inl ⟨_, _, rfl, rfl, .watched he⟩
    · rw [hc, hd]
      exact .inr ⟨e, rfl, rfl⟩

theorem releaseCursor (j : Janitor) {f g : Call α (Outcome StreamError Unit × Cursor)}
    (h : Call.SameButHandle (Along marked) f g) :
    Call.SameButHandle (Along marked) (j.releaseCursor w f) (j.releaseCursor w g) := by
  have hrest : ∀ x y : Outcome StreamError Unit × Cursor, Along marked x y →
      Call.SameButHandle (Along marked)
        (do
          let report ← Report.begun.record j.id .releaseCursor x.1
          return (← j.countOut w report, x.2))
        (do
          let report ← Report.begun.record j.id .releaseCursor y.1
          return (← j.countOut w report, y.2)) := by
    rintro ⟨r, c⟩ ⟨_, d⟩ ⟨rfl, hcd⟩
    refine .after _ fun report => ?_
    refine .after _ fun report => ?_
    exact .pure ⟨rfl, hcd⟩
  refine .after _ fun m => ?_
  split
  · refine .after _ fun _ => ?_
    exact h.bind hrest
  · exact h.bind hrest

theorem release (h : c.SameButHandle marked d) : Call.SameButHandle (Along marked) (c.release w)
    (d.release w) := by
  induction h with
  | plain heads => exact .pure ⟨rfl, .plain heads.release⟩
  | managed inner ih =>
    rw [Cursor.release, Cursor.release]
    split
    · exact .pure ⟨rfl, .managed inner⟩
    · exact (releaseCursor _ ih).bind fun x y hxy => .pure ⟨rfl, .managed hxy.2⟩
  | watched inner ih =>
    refine .after _ fun outcome => ?_
    split
    · exact .pure ⟨rfl, .watched inner⟩
    · exact ih.bind fun x y hxy => .pure ⟨hxy.1, .watched hxy.2⟩

theorem close (h : c.SameButHandle marked d) : Call.SameButHandle (Cursor.SameButHandle marked)
    (c.close w) (d.close w) := by
  induction h with
  | plain heads => exact .pure (.plain heads.close)
  | managed inner ih =>
    rw [Cursor.close, Cursor.close]
    split
    · exact .pure (.managed inner)
    · exact ih.bind fun x y hxy =>
        (releaseCursor _ hxy.release).bind fun x y hxy => .pure (.managed hxy.2)
  | watched inner ih => exact ih.bind fun x y hxy => .pure (.watched hxy)

theorem dropLayers (h : c.SameButHandle marked d) (layers : Nat) :
    Call.SameButHandle Eq (c.dropLayers w layers) (d.dropLayers w layers) := by
  induction layers generalizing c d with
  | zero => exact .pure rfl
  | succ layers ih =>
    cases h with
    | plain heads => exact .pure rfl
    | managed inner =>
      rw [Cursor.dropLayers, Cursor.dropLayers]
      split
      · exact ih inner
      · exact (releaseCursor _ inner.release).bind fun x y hxy => ih hxy.2
    | watched inner => exact ih inner

theorem depth (h : c.SameButHandle marked d) : c.depth = d.depth := by
  induction h with
  | plain heads => rfl
  | managed inner ih => exact congrArg (· + 1) ih
  | watched inner ih => exact congrArg (· + 1) ih

theorem drop (h : c.SameButHandle marked d) : Call.SameButHandle Eq (c.drop w) (d.drop w) := by
  rw [Cursor.drop, Cursor.drop, h.depth]
  exact h.dropLayers d.depth

theorem alongside : Cursor.Alongside (α := α) fun x y =>
    x.1.SameButHandle marked y.1 ∧ x.2 = y.2 ∧ x.2.Consistent where
  position _ _ h := h.1.position
  hasNext := by
    rintro ⟨c, s⟩ ⟨d, _⟩ ⟨h, rfl, hs⟩
    have hhas : c.hasNext s = d.hasNext s := h.hasNextBy _ s
    rw [← hhas]
    exact ⟨rfl, h, rfl, c.consistent_hasNextBy Feeds.pullsConsistent_draw hs⟩
  next := by
    rintro ⟨c, s⟩ ⟨d, _⟩ ⟨h, rfl, hs⟩
    obtain ⟨r, c', d', s', hc, hd, he⟩ := h.nextBy hs Feeds.draw
    have hkept := c.consistent_nextBy Feeds.pullsConsistent_draw hs
    rw [hc] at hkept
    rw [Cursor.next, Cursor.next, hc, hd]
    exact ⟨rfl, he, rfl, hkept⟩

end Cursor.SameButHandle

theorem CursorOp.take_sameButHandle {m : Store α} (hm : m.feeds.Consistent) {c d : Cursor}
    (h : c.SameButHandle marked d)
    (t : CursorOp) : ((t.perform c).run m).1.1 = ((t.perform d).run m).1.1 ∧
      ((t.perform c).run m).1.2.SameButHandle marked ((t.perform d).run m).1.2 ∧
        ((t.perform c).run m).2 = ((t.perform d).run m).2 := by
  rcases t.reads_or with ht | ⟨position, rfl⟩ | rfl | rfl
  · obtain ⟨hreply, hcursors, hfeeds, -⟩ := ht.beside Cursor.SameButHandle.alongside m m ⟨h, rfl, hm⟩
    dsimp only at hfeeds
    refine ⟨hreply, hcursors, ?_⟩
    rw [ht.store c m, ht.store d m, hfeeds]
  · rw [CursorOp.perform, CursorOp.perform]
    rcases h.seek position with ⟨c', d', hc, hd, he⟩ | ⟨e, hc, hd⟩
    · rw [hc, hd]
      exact ⟨rfl, he, rfl⟩
    · rw [hc, hd]
      exact ⟨rfl, h, rfl⟩
  · obtain ⟨⟨-, hcursors⟩, hstore⟩ := h.release (w := switches m.endings) m
    exact ⟨rfl, hcursors, hstore⟩
  · obtain ⟨hcursors, hstore⟩ := h.close (w := switches m.endings) m
    exact ⟨rfl, hcursors, hstore⟩

/-- A step of a run: an operation on the cursors, a cursor added or dropped, any operation on the store,
or the cached bucket of a cursor being forgotten. -/
inductive TraceOp (α : Type) where
  | use (u : SharedOp)
  | join (c : Cursor)
  | drop (cursor : Nat)
  | aside (d : StoreOp α)
  | forget (cursor : Nat)

def TraceOp.forgets : TraceOp α → Bool
  | forget _ => true
  | _ => false

namespace Shared

def traceStep (marked : Bool) (s : Shared α) : TraceOp α → List (Reply α) × Shared α
  | .use u => ([(s.use u).1], (s.use u).2)
  | .join c => ([], { s with cursors := s.cursors ++ [c] })
  | .drop i =>
    match s.cursors[i]? with
    | none => ([], s)
    | some c => ([], { s with store := s.store.afterWith fun w => c.drop w, cursors := s.cursors.eraseIdx i })
  | .aside d => ([], { s with store := d.perform s.store })
  | .forget i => ([], { s with cursors := s.cursors.modify i (Cursor.erased marked) })

def trace (marked : Bool) (s : Shared α) : List (TraceOp α) → List (Reply α) × Shared α
  | [] => ([], s)
  | k :: ks =>
    let (reply, s) := s.traceStep marked k
    let (replies, s) := s.trace marked ks
    (reply ++ replies, s)

/-- Equal stores, and cursors equal up to their cached buckets. -/
structure SameButHandle (marked : Bool) (s d : Shared α) : Prop where
  store : s.store = d.store
  feed : s.feed = d.feed
  consistent : d.store.feeds.Consistent
  cursors : List.Forall₂ (Cursor.SameButHandle marked) s.cursors d.cursors

theorem exists_storeOp (s : Shared α) (u : SharedOp) :
    (s.use u).2.store = s.store ∨ ∃ d : StoreOp α, (s.use u).2.store = d.perform s.store := by
  cases u with
  | addCursor provider => exact .inl rfl
  | cursorOp i cursorOp =>
    rw [use]
    cases s.cursors[i]? with
    | none => exact .inl rfl
    | some c => exact .inr ⟨.cursorOp c cursorOp, rfl⟩
  | hasNext offset => exact .inr ⟨.hasNext s.feed offset, rfl⟩
  | bucketFor offset => exact .inr ⟨.bucketFor s.feed offset, rfl⟩
  | close => exact .inr ⟨.closeBuffer s.feed, rfl⟩

theorem consistent_use {s : Shared α} (h : s.store.feeds.Consistent) (u : SharedOp) :
    (s.use u).2.store.feeds.Consistent := by
  rcases s.exists_storeOp u with hu | ⟨d, hu⟩
  · rwa [hu]
  · rw [hu]
    exact d.preservesConsistent_perform s.store h

end Shared

namespace Shared.SameButHandle

variable {s d : Shared α}

theorem use (h : s.SameButHandle marked d) (u : SharedOp) :
    (s.use u).1 = (d.use u).1 ∧ (s.use u).2.SameButHandle marked (d.use u).2 := by
  obtain ⟨store, feed, cursors⟩ := s
  obtain ⟨_, _, others⟩ := d
  obtain ⟨rfl, rfl, hconsistent, hcursors⟩ := h
  have hkept := consistent_use (s := ⟨store, feed, others⟩) hconsistent u
  cases u with
  | addCursor provider =>
    exact ⟨rfl, rfl, rfl, hkept, List.rel_append hcursors (.cons (.refl _) .nil)⟩
  | cursorOp i cursorOp =>
    simp only [Shared.use] at hkept ⊢
    have hi := hcursors.getElem?_rel i
    cases hc : cursors[i]? <;> cases hd : others[i]? <;> rw [hc, hd] at hi
    case none.none => exact ⟨rfl, rfl, rfl, hconsistent, hcursors⟩
    case none.some => nomatch hi
    case some.none => nomatch hi
    case some.some c d =>
      rw [hd] at hkept
      obtain ⟨hreply, hcursor, hstore⟩ := cursorOp.take_sameButHandle hconsistent (Option.rel_some_some.mp hi)
      exact ⟨hreply, hstore, rfl, hkept, hcursors.set i hcursor⟩
  | hasNext offset => exact ⟨rfl, rfl, rfl, hkept, hcursors⟩
  | bucketFor offset => exact ⟨rfl, rfl, rfl, hkept, hcursors⟩
  | close => exact ⟨rfl, rfl, rfl, hkept, hcursors⟩

theorem traceStep (h : s.SameButHandle marked d) {k : TraceOp α} (hk : k.forgets = false) :
    (s.traceStep marked k).1 = (d.traceStep marked k).1 ∧
      (s.traceStep marked k).2.SameButHandle marked (d.traceStep marked k).2 := by
  cases k with
  | use u =>
    obtain ⟨hreply, hleft⟩ := h.use u
    exact ⟨congrArg (fun r => [r]) hreply, hleft⟩
  | join c =>
    exact ⟨rfl, h.store, h.feed, h.consistent, List.rel_append h.cursors (.cons (.refl c) .nil)⟩
  | drop i =>
    have hi := h.cursors.getElem?_rel i
    cases hc : s.cursors[i]? <;> cases hd : d.cursors[i]? <;> rw [hc, hd] at hi
    case none.none => simpa only [Shared.traceStep, hc, hd] using ⟨trivial, h⟩
    case none.some => nomatch hi
    case some.none => nomatch hi
    case some.some c c' =>
      have hkept : (d.store.afterWith fun w => c'.drop w).feeds.Consistent :=
        (StoreOp.drop c').preservesConsistent_perform d.store h.consistent
      obtain ⟨-, hstore⟩ := (Option.rel_some_some.mp hi).drop (w := switches d.store.endings) d.store
      simp only [Shared.traceStep, hc, hd]
      refine ⟨trivial, ?_, h.feed, hkept, h.cursors.eraseIdx i⟩
      rw [h.store, Store.afterWith_eq, Store.afterWith_eq, hstore]
  | aside op =>
    exact ⟨rfl, congrArg op.perform h.store, h.feed, op.preservesConsistent_perform _ h.consistent, h.cursors⟩
  | forget i => cases hk

theorem forget (h : s.SameButHandle marked d) (i : Nat) :
    (s.traceStep marked (.forget i)).2.SameButHandle marked d :=
  ⟨h.store, h.feed, h.consistent, h.cursors.modify_left i fun _ _ h => h.erased⟩

theorem trace (h : s.SameButHandle marked d) (ks : List (TraceOp α)) :
    (s.trace marked ks).1 = (d.trace marked (ks.filter (!·.forgets))).1 ∧
      (s.trace marked ks).2.SameButHandle marked (d.trace marked (ks.filter (!·.forgets))).2 := by
  induction ks generalizing s d with
  | nil => exact ⟨rfl, h⟩
  | cons k ks ih =>
    cases hk : k.forgets with
    | true =>
      obtain ⟨i, rfl⟩ : ∃ i, k = .forget i := by
        cases k with
        | forget i => exact ⟨i, rfl⟩
        | _ => cases hk
      rw [List.filter_cons_of_neg (by simp [hk])]
      exact ih (h.forget i)
    | false =>
      rw [List.filter_cons_of_pos (by simp [hk])]
      obtain ⟨hreply, hstep⟩ := h.traceStep hk
      obtain ⟨hreplies, hrest⟩ := ih hstep
      exact ⟨congrArg₂ (· ++ ·) hreply hreplies, hrest⟩

end Shared.SameButHandle

/-- From every reachable store, with any cursors on any of its feeds, a run in which cursors forget
their cached buckets has the same replies, pulls and final store as the run without these steps, and the
cursors end at the same positions. -/
theorem Shared.forgetting_unseen (ops : List (StoreOp α)) (feed : Nat) (cursors : List Cursor)
    (marked : Bool) (ks : List (TraceOp α)) :
    let s : Shared α := ⟨StoreOp.run {} ops, feed, cursors⟩
    let forgetful := s.trace marked ks
    let mindful := s.trace marked (ks.filter (!·.forgets))
    forgetful.1 = mindful.1 ∧ forgetful.2.store = mindful.2.store ∧
      List.Forall₂ (Cursor.SameButHandle marked) forgetful.2.cursors mindful.2.cursors := by
  have h : (⟨StoreOp.run {} ops, feed, cursors⟩ : Shared α).SameButHandle marked
      ⟨StoreOp.run {} ops, feed, cursors⟩ :=
    ⟨rfl, rfl, StoreOp.consistent_run_empty ops, List.forall₂_same.mpr fun c _ => .refl c⟩
  obtain ⟨hreplies, hleft⟩ := h.trace ks
  exact ⟨hreplies, hleft.store, hleft.cursors⟩

end Replay
