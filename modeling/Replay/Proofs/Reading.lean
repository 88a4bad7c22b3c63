import Mathlib.Data.List.Basic
import Mathlib.Order.Basic
import Replay.Reader

/-!
Reading several items through a reader that follows a stream: each step reads the item at the reader's
position and advances it, or leaves it. What one call reads is a slice of the stream.
-/
namespace Replay

variable {α β σ τ : Type}

theorem getElem?_mono {items more : List α} (h : items <+: more) {i : Nat} {a : α}
    (ha : items[i]? = some a) : more[i]? = some a := by
  obtain ⟨rest, rfl⟩ := h
  obtain ⟨hi, -⟩ := List.getElem?_eq_some_iff.mp ha
  rwa [List.getElem?_append_left hi]

def StretchAt (items : List α) (p : Nat) (got : List α) : Prop := got <+: items.drop p

namespace StretchAt

variable {items more got : List α} {p : Nat}

theorem nil (items : List α) (p : Nat) : StretchAt items p [] := List.nil_prefix

theorem cons {a : α} (ha : items[p]? = some a) (h : StretchAt items (p + 1) got) :
    StretchAt items p (a :: got) := by
  obtain ⟨hp, rfl⟩ := List.getElem?_eq_some_iff.mp ha
  unfold StretchAt
  rw [List.drop_eq_getElem_cons hp, List.cons_prefix_cons]
  exact ⟨rfl, h⟩

theorem mono (h : StretchAt items p got) (hm : items <+: more) : StretchAt more p got := by
  obtain ⟨rest, rfl⟩ := hm
  unfold StretchAt at *
  rw [List.drop_append]
  exact h.trans (List.prefix_append _ _)

theorem append {rest : List α} (h : StretchAt items p got) (h' : StretchAt items (p + got.length) rest) :
    StretchAt items p (got ++ rest) := by
  unfold StretchAt at *
  obtain ⟨after, hafter⟩ := h
  rw [← List.drop_drop, ← hafter, List.drop_left] at h'
  rw [← hafter]
  exact (List.prefix_append_right_inj got).mpr h'

theorem eq_drop (h : StretchAt items p got) (hlength : items.length ≤ p + got.length) :
    got = items.drop p := by
  refine h.eq_of_length_le ?_
  rw [List.length_drop]
  omega

theorem length_le (h : StretchAt items p got) : got.length ≤ items.length - p := by
  have hlength := List.IsPrefix.length_le h
  rwa [List.length_drop] at hlength

end StretchAt

/-- The first items of the stream are known, in state `k`; `At s k p` says that the reader is in that
state at position `p`. -/
structure Reader.Follows {κ : Type} [Preorder κ] (r : Reader α τ) (items : κ → List α)
    (At : τ → κ → Nat → Prop) : Prop where
  step : ∀ {rest k p}, At rest k p → ∃ l q, k ≤ l ∧ At (r.step rest).2 l q ∧
    match (r.step rest).1 with
    | .ok (some a) => (items l)[p]? = some a ∧ q = p + 1
    | _ => q = p
  mono : ∀ {k l}, k ≤ l → items k <+: items l

def Items.brought (entries : List (Option (Except StreamError α))) : List α :=
  entries.filterMap fun entry => entry.bind Except.toOption

namespace Reader.Follows

variable {κ : Type} [Preorder κ] {r : Reader α τ} {items : κ → List α} {At : τ → κ → Nat → Prop}
  {k : κ} {p : Nat}

theorem fill (h : r.Follows items At) (room : Nat) {rest : τ} (hat : At rest k p) :
    ∃ l q, k ≤ l ∧ At (r.fill room rest).2 l q ∧
      match (r.fill room rest).1 with
      | .ok got => StretchAt (items l) p got ∧ q = p + got.length
      | .error (.error _) => q = p
      | .error (.panic _) => True := by
  induction room generalizing rest k p with
  | zero => exact ⟨k, p, le_rfl, hat, .nil _ _, rfl⟩
  | succ room ih =>
    obtain ⟨l, q, hle, hat', hstep⟩ := h.step hat
    rw [Reader.fill]
    rcases hs : r.step rest with ⟨stop | (_ | a), rest'⟩
    · rw [hs] at hat' hstep
      cases stop with
      | error e => exact ⟨l, q, hle, hat', hstep⟩
      | panic e => exact ⟨l, q, hle, hat', trivial⟩
    · rw [hs] at hat' hstep
      exact ⟨l, q, hle, hat', .nil _ _, hstep⟩
    · rw [hs] at hat' hstep
      obtain ⟨ha, rfl⟩ := hstep
      obtain ⟨m, q, hle', hat'', hrest⟩ := ih hat'
      have hm := getElem?_mono (h.mono hle') ha
      dsimp only
      rcases hf : r.fill room rest' with ⟨stop | got, rest''⟩
      · rw [hf] at hat'' hrest
        cases stop with
        | error e => exact ⟨m, q, hle.trans hle', hat'', .cons hm (.nil _ _), hrest⟩
        | panic e => exact ⟨m, q, hle.trans hle', hat'', trivial⟩
      · rw [hf] at hat'' hrest
        obtain ⟨hgot, rfl⟩ := hrest
        refine ⟨m, _, hle.trans hle', hat'', .cons hm hgot, ?_⟩
        rw [List.length_cons]
        omega

theorem next (h : r.Follows items At) {it : Items τ} (hat : At it.rest k p) :
    ∃ l q, k ≤ l ∧ At (it.next r).2.rest l q ∧
      match (it.next r).1 with
      | .ok (some (.ok a)) => (items l)[p]? = some a ∧ q = p + 1
      | _ => q = p := by
  obtain ⟨l, q, hle, hat', hstep⟩ := h.step hat
  unfold Items.next
  split
  · exact ⟨k, p, le_rfl, hat, rfl⟩
  · rcases hs : r.step it.rest with ⟨stop | (_ | a), rest'⟩
    · rw [hs] at hat' hstep
      cases stop with
      | error e => exact ⟨l, q, hle, hat', hstep⟩
      | panic e => exact ⟨l, q, hle, hat', hstep⟩
    · rw [hs] at hat' hstep
      exact ⟨l, q, hle, hat', hstep⟩
    · rw [hs] at hat' hstep
      exact ⟨l, q, hle, hat', hstep⟩

theorem take (h : r.Follows items At) (n : Nat) {it : Items τ} (hat : At it.rest k p) :
    ∃ l q, k ≤ l ∧ At (Items.take r n it).2.rest l q ∧
      ∀ entries, (Items.take r n it).1 = .ok entries →
        StretchAt (items l) p (Items.brought entries) ∧
          q = p + (Items.brought entries).length := by
  induction n generalizing it k p with
  | zero =>
    refine ⟨k, p, le_rfl, hat, ?_⟩
    intro entries he
    cases he
    exact ⟨.nil _ _, rfl⟩
  | succ n ih =>
    obtain ⟨l, q, hle, hat', hstep⟩ := h.next hat
    rw [Items.take]
    rcases hs : it.next r with ⟨_ | entry, it'⟩
    · rw [hs] at hat'
      exact ⟨l, q, hle, hat', nofun⟩
    · rw [hs] at hat' hstep
      obtain ⟨m, q', hle', hat'', hrest⟩ := ih hat'
      refine ⟨m, q', hle.trans hle', ?_⟩
      dsimp only
      rcases ht : Items.take r n it' with ⟨_ | entries, it''⟩
      · rw [ht] at hat''
        exact ⟨hat'', nofun⟩
      · rw [ht] at hat'' hrest
        obtain ⟨hgot, hq⟩ := hrest entries rfl
        refine ⟨hat'', ?_⟩
        intro all hall
        cases hall
        rcases entry with _ | (_ | a)
        · subst hstep
          exact ⟨hgot, hq⟩
        · subst hstep
          exact ⟨hgot, hq⟩
        · obtain ⟨ha, rfl⟩ := hstep
          refine ⟨.cons (getElem?_mono (h.mono hle') ha) hgot, ?_⟩
          simp only [Items.brought, Option.bind_some, Except.toOption, List.filterMap_cons,
            List.length_cons] at hq ⊢
          omega

theorem drain (h : r.Follows items At) (most : Nat) (before : Array α) {it : Items τ}
    (hat : At it.rest k p) :
    ∃ l q, k ≤ l ∧ At (Items.drain r most before it).2.rest l q ∧
      ∀ all stop, (Items.drain r most before it).1 = .ok (all, stop) →
        ∃ got, all = before ++ got.toArray ∧ StretchAt (items l) p got ∧
          q = p + got.length := by
  induction most generalizing it k p before with
  | zero =>
    refine ⟨k, p, le_rfl, hat, ?_⟩
    intro all stop hall
    cases hall
    exact ⟨[], by simp, .nil _ _, rfl⟩
  | succ most ih =>
    obtain ⟨l, q, hle, hat', hstep⟩ := h.next hat
    rw [Items.drain]
    rcases hs : it.next r with ⟨_ | _ | (_ | a), it'⟩
    · rw [hs] at hat'
      exact ⟨l, q, hle, hat', nofun⟩
    · rw [hs] at hat' hstep
      refine ⟨l, q, hle, hat', ?_⟩
      intro all stop hall
      cases hall
      exact ⟨[], by simp, .nil _ _, hstep⟩
    · rw [hs] at hat' hstep
      refine ⟨l, q, hle, hat', ?_⟩
      intro all stop hall
      cases hall
      exact ⟨[], by simp, .nil _ _, hstep⟩
    · rw [hs] at hat' hstep
      obtain ⟨ha, rfl⟩ := hstep
      obtain ⟨m, q, hle', hat'', hrest⟩ := ih (before.push a) hat'
      refine ⟨m, q, hle.trans hle', hat'', ?_⟩
      intro all stop hall
      obtain ⟨got, rfl, hgot, rfl⟩ := hrest all stop hall
      refine ⟨a :: got, by simp, .cons (getElem?_mono (h.mono hle') ha) hgot, ?_⟩
      rw [List.length_cons]
      omega

end Reader.Follows

def Beside (R : σ → τ → Prop) (x : β × σ) (y : β × τ) : Prop := x.1 = y.1 ∧ R x.2 y.2

namespace Beside

variable {γ δ : Type} {R : σ → τ → Prop}

theorem split {x : β × σ} {y : β × τ} (h : Beside R x y) :
    ∃ r s s', x = (r, s) ∧ y = (r, s') ∧ R s s' := ⟨x.1, x.2, y.2, rfl, by rw [h.1], h.2⟩

theorem split₂ {x : β × γ × σ} {y : β × γ × τ} (h : Beside (Beside R) x y) :
    ∃ r b s s', x = (r, b, s) ∧ y = (r, b, s') ∧ R s s' := by
  obtain ⟨r, p, p', rfl, rfl, hrest⟩ := h.split
  obtain ⟨b, s, s', rfl, rfl, hstate⟩ := hrest.split
  exact ⟨r, b, s, s', rfl, rfl, hstate⟩

theorem split₃ {x : β × γ × δ × σ} {y : β × γ × δ × τ} (h : Beside (Beside (Beside R)) x y) :
    ∃ r c b s s', x = (r, c, b, s) ∧ y = (r, c, b, s') ∧ R s s' := by
  obtain ⟨r, p, p', rfl, rfl, hrest⟩ := h.split
  obtain ⟨c, b, s, s', rfl, rfl, hstate⟩ := hrest.split₂
  exact ⟨r, c, b, s, s', rfl, rfl, hstate⟩

end Beside

def Reader.Agrees {υ : Type} (r : Reader α τ) (r' : Reader α υ) (R : τ → υ → Prop) : Prop :=
  ∀ x y, R x y → Beside R (r.step x) (r'.step y)

namespace Reader.Agrees

variable {υ : Type} {r : Reader α τ} {r' : Reader α υ} {R : τ → υ → Prop}

theorem fill (hr : r.Agrees r' R) (room : Nat) {x : τ} {y : υ} (h : R x y) :
    Beside R (r.fill room x) (r'.fill room y) := by
  induction room generalizing x y with
  | zero => exact ⟨rfl, h⟩
  | succ room ih =>
    obtain ⟨o, x', y', hx, hy, hstep⟩ := (hr x y h).split
    unfold Reader.fill
    rw [hx, hy]
    rcases o with _ | _ | a
    · exact ⟨rfl, hstep⟩
    · exact ⟨rfl, hstep⟩
    · obtain ⟨more, x'', y'', hx, hy, hmore⟩ := (ih hstep).split
      dsimp only
      rw [hx, hy]
      rcases more with (_ | _) | _
      all_goals exact ⟨rfl, hmore⟩

def Along (R : τ → υ → Prop) (it : Items τ) (it' : Items υ) : Prop :=
  it.failed = it'.failed ∧ R it.rest it'.rest

theorem next (hr : r.Agrees r' R) {it : Items τ} {it' : Items υ} (h : Along R it it') :
    Beside (Along R) (it.next r) (it'.next r') := by
  unfold Items.next
  rw [← h.1]
  split
  · exact ⟨rfl, h⟩
  · obtain ⟨o, x, y, hx, hy, hstep⟩ := (hr _ _ h.2).split
    rw [hx, hy]
    rcases o with (_ | _) | _ | a
    all_goals exact ⟨rfl, rfl, hstep⟩

theorem take (hr : r.Agrees r' R) (count : Nat) {it : Items τ} {it' : Items υ}
    (h : Along R it it') : Beside (Along R) (Items.take r count it) (Items.take r' count it') := by
  induction count generalizing it it' with
  | zero => exact ⟨rfl, h⟩
  | succ count ih =>
    obtain ⟨o, x, y, hx, hy, hnext⟩ := (hr.next h).split
    unfold Items.take
    rw [hx, hy]
    cases o with
    | error p => exact ⟨rfl, hnext⟩
    | ok entry =>
      obtain ⟨more, x', y', hx, hy, hmore⟩ := (ih hnext).split
      dsimp only
      rw [hx, hy]
      cases more with
      | error p => exact ⟨rfl, hmore⟩
      | ok entries => exact ⟨rfl, hmore⟩

theorem drain (hr : r.Agrees r' R) (most : Nat) (got : Array α) {it : Items τ} {it' : Items υ}
    (h : Along R it it') :
    Beside (Along R) (Items.drain r most got it) (Items.drain r' most got it') := by
  induction most generalizing it it' got with
  | zero => exact ⟨rfl, h⟩
  | succ most ih =>
    obtain ⟨o, x, y, hx, hy, hnext⟩ := (hr.next h).split
    unfold Items.drain
    rw [hx, hy]
    rcases o with _ | _ | _ | a
    · exact ⟨rfl, hnext⟩
    · exact ⟨rfl, hnext⟩
    · exact ⟨rfl, hnext⟩
    · exact ih _ hnext

end Reader.Agrees

def Reader.Preserves (r : Reader α τ) (I : τ → Prop) : Prop := ∀ rest, I rest → I (r.step rest).2

namespace Reader.Preserves

variable {r : Reader α τ} {I : τ → Prop}

theorem agrees (hr : r.Preserves I) : r.Agrees r fun x y => x = y ∧ I x := by
  rintro x y ⟨rfl, h⟩
  exact ⟨rfl, rfl, hr x h⟩

theorem fill (hr : r.Preserves I) (room : Nat) {rest : τ} (h : I rest) :
    I (r.fill room rest).2 := (hr.agrees.fill room ⟨rfl, h⟩).2.2

theorem take (hr : r.Preserves I) (count : Nat) {it : Items τ} (h : I it.rest) :
    I (Items.take r count it).2.rest := (hr.agrees.take count ⟨rfl, rfl, h⟩).2.2.2

theorem drain (hr : r.Preserves I) (most : Nat) {it : Items τ} (got : Array α) (h : I it.rest) :
    I (Items.drain r most got it).2.rest := (hr.agrees.drain most got ⟨rfl, rfl, h⟩).2.2.2

theorem fill_ne {e : StreamError} (hr : r.Preserves I) (he : ∀ rest, I rest → (r.step rest).1 ≠ .raise e)
    (room : Nat) {rest : τ} (h : I rest) : (r.fill room rest).1 ≠ .raise e := by
  induction room generalizing rest with
  | zero => rintro ⟨⟩
  | succ room ih =>
    have hstep := he rest h
    have hnext := hr rest h
    unfold Reader.fill
    rcases hs : r.step rest with ⟨_ | _ | a, rest'⟩
    · rw [hs] at hstep
      rintro ⟨⟩
      exact hstep rfl
    · rintro ⟨⟩
    · rw [hs] at hnext
      have hmore := ih hnext
      dsimp only
      rcases hf : r.fill room rest' with ⟨(_ | _) | _, rest''⟩
      all_goals rintro ⟨⟩

theorem next_ne {e : StreamError} (he : ∀ rest, I rest → (r.step rest).1 ≠ .raise e) {it : Items τ}
    (h : I it.rest) : (it.next r).1 ≠ .ok (some (.error e)) := by
  have hstep := he it.rest h
  unfold Items.next
  split
  · nofun
  · rcases hs : r.step it.rest with ⟨(_ | _) | _ | a, rest⟩
    · rw [hs] at hstep
      rintro ⟨⟩
      exact hstep rfl
    all_goals nofun

theorem next (hr : r.Preserves I) {it : Items τ} (h : I it.rest) : I (it.next r).2.rest := by
  have hnext : Beside (Reader.Agrees.Along fun x y => x = y ∧ I x) (it.next r) (it.next r) :=
    hr.agrees.next ⟨rfl, rfl, h⟩
  exact hnext.2.2.2

theorem take_ne {e : StreamError} (hr : r.Preserves I) (he : ∀ rest, I rest → (r.step rest).1 ≠ .raise e)
    (count : Nat) {it : Items τ} (h : I it.rest) {entries : List (Option (Except StreamError α))}
    (hentries : (Items.take r count it).1 = .ok entries) : some (.error e) ∉ entries := by
  induction count generalizing it entries with
  | zero =>
    cases hentries
    exact List.not_mem_nil
  | succ count ih =>
    have hentry := next_ne he h
    have hnext := hr.next h
    unfold Items.take at hentries
    rcases hs : it.next r with ⟨_ | entry, it'⟩
    · rw [hs] at hentries
      cases hentries
    · rw [hs] at hentry hnext hentries
      dsimp only at hentries
      rcases ht : Items.take r count it' with ⟨_ | more, it''⟩
      · rw [ht] at hentries
        cases hentries
      · rw [ht] at hentries
        cases hentries
        have hmore := ih hnext (congrArg Prod.fst ht)
        rw [List.mem_cons, not_or]
        exact ⟨fun he => hentry (congrArg Except.ok he.symm), hmore⟩

theorem drain_ne {e : StreamError} (hr : r.Preserves I)
    (he : ∀ rest, I rest → (r.step rest).1 ≠ .raise e) (most : Nat) (got : Array α) {it : Items τ}
    (h : I it.rest) (all : Array α) : (Items.drain r most got it).1 ≠ .ok (all, some e) := by
  induction most generalizing it got with
  | zero => nofun
  | succ most ih =>
    have hentry := next_ne he h
    have hnext := hr.next h
    unfold Items.drain
    rcases hs : it.next r with ⟨_ | _ | _ | a, it'⟩
    · nofun
    · nofun
    · rw [hs] at hentry
      rintro ⟨⟩
      exact hentry rfl
    · rw [hs] at hnext
      exact ih _ hnext

end Reader.Preserves
end Replay
