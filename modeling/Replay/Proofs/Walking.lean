import Replay.Proofs.Reading

/-!
`read` and `Items` as two views of one walk: a sequence of steps up to the first that brings no item.
`read` suppresses an error that follows items, `Items` returns it after them.
-/
namespace Replay

variable {α β γ κ τ : Type}

/-- All steps were made, the end was reached, or a step failed. -/
inductive Finish where
  | spent
  | ended
  | stopped (stop : Stop StreamError)

def Finish.isStopped : Finish → Bool
  | stopped _ => true
  | _ => false

/-- At most `steps` steps, the items they brought, how the walk finished and the final state. -/
structure Walk (α τ : Type) where
  steps : Nat
  got : List α
  finish : Finish
  rest : τ

namespace Walk

def after (a : α) (w : Walk α τ) : Walk α τ :=
  { w with steps := w.steps + 1, got := a :: w.got }

/-- The result of `read` with a buffer of that many places. -/
def filled (w : Walk α τ) : Outcome StreamError (List α) :=
  match w.finish, w.got with
  | .stopped (.panic p), _ => .panic p
  | .stopped (.error e), [] => .raise e
  | _, got => .ok got

def last (w : Walk α τ) : List (Option (Except StreamError α)) :=
  match w.finish with
  | .stopped (.error e) => [some (.error e)]
  | _ => []

/-- The results of that many calls of `Items::next`. -/
def entries (w : Walk α τ) : List (Option (Except StreamError α)) :=
  let results := w.got.map (fun a => some (.ok a)) ++ w.last
  results ++ List.replicate (w.steps - results.length) none

@[simp] theorem steps_after (a : α) (w : Walk α τ) : (w.after a).steps = w.steps + 1 := rfl

@[simp] theorem got_after (a : α) (w : Walk α τ) : (w.after a).got = a :: w.got := rfl

@[simp] theorem last_after (a : α) (w : Walk α τ) : (w.after a).last = w.last := rfl

theorem entries_after (a : α) (w : Walk α τ) : (w.after a).entries = some (.ok a) :: w.entries := by
  simp [entries]

theorem entries_of_spent {w : Walk α τ} (h : w.finish = .spent) (hlength : w.got.length = w.steps) :
    w.entries = w.got.map fun a => some (.ok a) := by
  simp [entries, last, h, hlength]

theorem entries_of_ended {w : Walk α τ} (h : w.finish = .ended) :
    w.entries = (w.got.map fun a => some (.ok a)) ++ List.replicate (w.steps - w.got.length) none := by
  simp [entries, last, h]

theorem entries_of_error {w : Walk α τ} {e : StreamError} (h : w.finish = .stopped (.error e)) :
    w.entries = (w.got.map fun a => some (.ok a)) ++
      some (.error e) :: List.replicate (w.steps - w.got.length - 1) none := by
  simp [entries, last, h, Nat.sub_sub]

@[simp] theorem brought_entries (w : Walk α τ) : Items.brought w.entries = w.got := by
  have hlast : Items.brought w.last = [] := by
    unfold last
    split
    · rfl
    · rfl
  have hnone : ∀ n, Items.brought (List.replicate n (none : Option (Except StreamError α))) = [] := by
    intro n
    simp [Items.brought]
  unfold Items.brought at *
  rw [entries, List.filterMap_append, List.filterMap_append, hlast, hnone, List.append_nil,
    List.append_nil, List.filterMap_map]
  exact List.filterMap_some

structure Measured (w : Walk α τ) : Prop where
  spent : w.finish = .spent → w.got.length = w.steps
  short : w.finish ≠ .spent → w.got.length < w.steps

theorem Measured.length_le {w : Walk α τ} (h : w.Measured) : w.got.length ≤ w.steps := by
  by_cases hspent : w.finish = .spent
  · exact Nat.le_of_eq (h.spent hspent)
  · exact Nat.le_of_lt (h.short hspent)

/-- No panic, and a walk that reached the end stays there. -/
structure Rests (r : Reader α τ) (w : Walk α τ) : Prop where
  panicFree : ∀ p, w.finish ≠ .stopped (.panic p)
  ended : w.finish = .ended → r.step w.rest = (.ok none, w.rest)

end Walk

namespace Reader

variable {r : Reader α τ} {steps : Nat} {x y : τ} {a : α} {stop : Stop StreamError}

def walk (r : Reader α τ) : (steps : Nat) → τ → Walk α τ
  | 0, x => ⟨0, [], .spent, x⟩
  | steps + 1, x =>
    match r.step x with
    | (.ok (some a), y) => (r.walk steps y).after a
    | (.ok none, y) => ⟨steps + 1, [], .ended, y⟩
    | (.error stop, y) => ⟨steps + 1, [], .stopped stop, y⟩

theorem walk_item (h : r.step x = (.ok (some a), y)) : r.walk (steps + 1) x = (r.walk steps y).after a := by
  rw [walk, h]

theorem walk_ended (h : r.step x = (.ok none, y)) : r.walk (steps + 1) x = ⟨steps + 1, [], .ended, y⟩ := by
  rw [walk, h]

theorem walk_stopped (h : r.step x = (.error stop, y)) :
    r.walk (steps + 1) x = ⟨steps + 1, [], .stopped stop, y⟩ := by
  rw [walk, h]

@[simp] theorem steps_walk (r : Reader α τ) (steps : Nat) (x : τ) : (r.walk steps x).steps = steps := by
  induction steps generalizing x with
  | zero => rfl
  | succ steps ih =>
    rw [walk]
    split
    · exact congrArg (· + 1) (ih _)
    · rfl
    · rfl

theorem measured_walk (r : Reader α τ) (steps : Nat) (x : τ) : (r.walk steps x).Measured := by
  induction steps generalizing x with
  | zero => exact ⟨fun _ => rfl, fun hspent => absurd rfl hspent⟩
  | succ steps ih =>
    rw [walk]
    split
    · exact ⟨fun hspent => congrArg (· + 1) ((ih _).spent hspent),
        fun hspent => Nat.succ_lt_succ ((ih _).short hspent)⟩
    · exact ⟨by rintro ⟨⟩, fun _ => Nat.succ_pos _⟩
    · exact ⟨by rintro ⟨⟩, fun _ => Nat.succ_pos _⟩

theorem fill_eq_walk (r : Reader α τ) (room : Nat) (x : τ) :
    r.fill room x = ((r.walk room x).filled, (r.walk room x).rest) := by
  induction room generalizing x with
  | zero => rfl
  | succ room ih =>
    rw [fill]
    rcases hs : r.step x with ⟨(e | p) | _ | a, y⟩
    · rw [walk_stopped hs]
      rfl
    · rw [walk_stopped hs]
      rfl
    · rw [walk_ended hs]
      rfl
    · rw [walk_item hs]
      dsimp only
      rw [ih y]
      generalize r.walk room y = w
      obtain ⟨steps, got, finish, rest⟩ := w
      rcases finish with _ | _ | (e | p)
      · rfl
      · rfl
      · cases got <;> rfl
      · rfl

end Reader

namespace Items

variable {r : Reader α τ} {it : Items τ}

theorem take_of_idle (h : it.next r = (.ok none, it)) (calls : Nat) :
    take r calls it = (.ok (List.replicate calls none), it) := by
  induction calls with
  | zero => rfl
  | succ calls ih =>
    rw [take, h]
    dsimp only
    rw [ih]
    rfl

theorem next_of_rest {x : τ} (h : r.step x = (.ok none, x)) :
    (⟨x, false⟩ : Items τ).next r = (.ok none, ⟨x, false⟩) := by
  simp only [next, h, Bool.false_eq_true, if_false]

theorem take_eq_walk {calls : Nat} {x : τ} (h : (r.walk calls x).Rests r) :
    take r calls ⟨x, false⟩ =
      (.ok (r.walk calls x).entries, ⟨(r.walk calls x).rest, (r.walk calls x).finish.isStopped⟩) := by
  induction calls generalizing x with
  | zero => rfl
  | succ calls ih =>
    rw [take, next, if_neg Bool.false_ne_true]
    rcases hs : r.step x with ⟨(e | p) | _ | a, y⟩
    · rw [Reader.walk_stopped hs]
      dsimp only
      rw [take_of_idle (next_of_failed rfl)]
      rfl
    · rw [Reader.walk_stopped hs] at h
      exact absurd rfl (h.panicFree p)
    · rw [Reader.walk_ended hs] at h ⊢
      dsimp only
      rw [take_of_idle (next_of_rest (h.ended rfl))]
      rfl
    · rw [Reader.walk_item hs] at h ⊢
      dsimp only
      rw [ih ⟨h.panicFree, h.ended⟩, Walk.entries_after]
      rfl

end Items

/-- Calls made one after the other, each from the state the previous one left. -/
def inTurn (f : κ → τ → β × τ) : List κ → τ → List β × τ
  | [], x => ([], x)
  | k :: ks, x =>
    let (b, y) := f k x
    let (bs, z) := inTurn f ks y
    (b :: bs, z)

theorem inTurn_map {I : τ → Prop} {f : κ → τ → β × τ} {g : κ → τ → γ × τ} {tell : γ → β}
    (hI : ∀ k x, I x → I (g k x).2) (h : ∀ k x, I x → f k x = (tell (g k x).1, (g k x).2))
    (ks : List κ) {x : τ} (hx : I x) :
    inTurn f ks x = ((inTurn g ks x).1.map tell, (inTurn g ks x).2) := by
  induction ks generalizing x with
  | nil => rfl
  | cons k ks ih =>
    rw [inTurn, h k x hx]
    dsimp only
    rw [ih (hI k x hx)]
    rfl

namespace Reader

variable (r : Reader α τ)

/-- A fresh `Items`, called that many times and then dropped. -/
def iterate (calls : Nat) (x : τ) : Except Panic (List (Option (Except StreamError α))) × τ :=
  let (entries, it) := Items.take r calls ⟨x, false⟩
  (entries, it.rest)

def walks : List Nat → τ → List (Walk α τ) × τ :=
  inTurn fun steps x => (r.walk steps x, (r.walk steps x).rest)

theorem fills_eq_walks (rooms : List Nat) (x : τ) :
    inTurn r.fill rooms x = ((r.walks rooms x).1.map Walk.filled, (r.walks rooms x).2) :=
  inTurn_map (I := fun _ => True) (fun _ _ _ => trivial) (fun room x _ => r.fill_eq_walk room x) rooms
    trivial

theorem map_steps_walks (ns : List Nat) (x : τ) : (r.walks ns x).1.map Walk.steps = ns := by
  induction ns generalizing x with
  | nil => rfl
  | cons n ns ih => exact congrArg₂ List.cons (r.steps_walk n x) (ih _)

theorem measured_walks (ns : List Nat) (x : τ) : ∀ w ∈ (r.walks ns x).1, w.Measured := by
  induction ns generalizing x with
  | nil => nofun
  | cons n ns ih => exact List.forall_mem_cons.mpr ⟨r.measured_walk n x, ih _⟩

end Reader

def gathered (replies : List (Outcome StreamError (List α))) : List α :=
  replies.flatMap fun reply => reply.toOption.getD []

/-- A read with room returned no items and no error. -/
def RunsDry (rooms : List Nat) (replies : List (Outcome StreamError (List α))) : Prop :=
  ∃ room, 0 < room ∧ (room, .ok []) ∈ rooms.zip replies

def iterated (results : List (Except Panic (List (Option (Except StreamError α))))) : List α :=
  results.flatMap fun entries => Items.brought (entries.toOption.getD [])

def EndsClean (results : List (Except Panic (List (Option (Except StreamError α))))) : Prop :=
  ∃ entries, .ok entries ∈ results ∧ none ∈ entries ∧ ∀ e, some (.error e) ∉ entries

namespace Walk

variable {r : Reader α τ} {w : Walk α τ} {ws : List (Walk α τ)}

theorem iterated_entries (ws : List (Walk α τ)) :
    iterated (ws.map fun w => .ok w.entries) = ws.flatMap got := by
  rw [iterated, List.flatMap_map]
  exact List.flatMap_congr fun w _ => w.brought_entries

theorem Rests.filled_cases (hw : w.Rests r) : w.filled = .ok w.got ∨
    ∃ e, w.finish = .stopped (.error e) ∧ w.got = [] ∧ w.filled = .raise e := by
  have hpanicFree := hw.panicFree
  obtain ⟨steps, got, finish, rest⟩ := w
  rcases finish with _ | _ | (e | p)
  · exact .inl rfl
  · exact .inl rfl
  · cases got with
    | nil => exact .inr ⟨e, rfl, rfl, rfl⟩
    | cons a got => exact .inl rfl
  · exact absurd rfl (hpanicFree p)

theorem gathered_filled (hpanicFree : ∀ w ∈ ws, w.Rests r) : gathered (ws.map filled) = ws.flatMap got := by
  rw [gathered, List.flatMap_map]
  refine List.flatMap_congr fun w hw => ?_
  rcases (hpanicFree w hw).filled_cases with hfilled | ⟨e, -, hgot, hfilled⟩
  · rw [hfilled]
    rfl
  · rw [hfilled, hgot]
    rfl

theorem ended_of_filled (hw : w.Measured) (hsteps : 0 < w.steps) (hfilled : w.filled = .ok []) :
    w.finish = .ended ∧ w.got = [] := by
  have hspent := hw.spent
  obtain ⟨steps, got, finish, rest⟩ := w
  rcases finish with _ | _ | (e | p)
  · obtain rfl : got = [] := Except.ok.inj hfilled
    exact absurd (hspent rfl) (Nat.ne_of_lt hsteps)
  · exact ⟨rfl, Except.ok.inj hfilled⟩
  · cases got <;> cases hfilled
  · cases hfilled

theorem runsDry_iff (hw : ∀ w ∈ ws, w.Measured) : RunsDry (ws.map steps) (ws.map filled) ↔
    ∃ w ∈ ws, 0 < w.steps ∧ w.finish = .ended ∧ w.got = [] := by
  rw [RunsDry, List.zip_map']
  constructor
  · rintro ⟨room, hroom, hmem⟩
    obtain ⟨w, hmem', heq⟩ := List.mem_map.mp hmem
    obtain ⟨rfl, hfilled⟩ := Prod.mk.inj heq
    exact ⟨w, hmem', hroom, ended_of_filled (hw w hmem') hroom hfilled⟩
  · rintro ⟨w, hmem, hsteps, hfinish, hgot⟩
    refine ⟨w.steps, hsteps, List.mem_map.mpr ⟨w, hmem, ?_⟩⟩
    rw [filled, hfinish, hgot]

theorem ends_iff (hw : w.Measured) (hpanicFree : w.Rests r) :
    (none ∈ w.entries ∧ ∀ e, some (.error e) ∉ w.entries) ↔ w.finish = .ended := by
  have hspent := hw.spent
  have hshort := hw.short
  have hpanicFree := hpanicFree.panicFree
  obtain ⟨steps, got, finish, rest⟩ := w
  rcases finish with _ | _ | (e | p)
  · simp [entries, last, hspent rfl]
  · have hlt : got.length < steps := hshort nofun
    simp [entries, last, Nat.sub_ne_zero_of_lt hlt]
  · simp [entries, last]
  · exact absurd rfl (hpanicFree p)

theorem endsClean_iff (hw : ∀ w ∈ ws, w.Measured) (hpanicFree : ∀ w ∈ ws, w.Rests r) :
    EndsClean (ws.map fun w => .ok w.entries) ↔ ∃ w ∈ ws, w.finish = .ended := by
  constructor
  · rintro ⟨entries, hmem, hends⟩
    obtain ⟨w, hmem', heq⟩ := List.mem_map.mp hmem
    obtain rfl := Except.ok.inj heq
    exact ⟨w, hmem', (ends_iff (hw w hmem') (hpanicFree w hmem')).mp hends⟩
  · rintro ⟨w, hmem, hfinish⟩
    exact ⟨w.entries, List.mem_map_of_mem hmem, (ends_iff (hw w hmem) (hpanicFree w hmem)).mpr hfinish⟩

end Walk

end Replay
