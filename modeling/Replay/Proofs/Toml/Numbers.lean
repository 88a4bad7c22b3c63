import Replay.Toml.Document

/-!
The numbers of a TOML document are signed 64-bit numbers. Tables below the root do not matter here, as
no key or header puts a number into the root table other than the one read for it.
-/
namespace Replay.Toml

/-- The value is not a number, or is an `i64`. -/
def Value.Bounded : Value → Prop
  | .integer n => Int64.minValue.toInt ≤ n ∧ n ≤ Int64.maxValue.toInt
  | _ => True

theorem bounded_of_integer? {cs : Chars} {n : Int} (h : integer? cs = some n) :
    (Value.integer n).Bounded := by
  have hchecked : ∀ read : Option Int, (read.bind fun m =>
      if Int64.minValue.toInt ≤ m ∧ m ≤ Int64.maxValue.toInt then some m else none) = some n →
      (Value.integer n).Bounded := by
    intro read hread
    obtain ⟨m, -, hm⟩ := Option.bind_eq_some_iff.mp hread
    split at hm
    · rename_i hfits
      cases hm
      exact hfits
    · cases hm
  unfold integer? at h
  split at h
  · exact hchecked _ h
  · exact hchecked _ h
  · exact hchecked _ h
  · exact hchecked _ h

theorem bounded_of_scalarValue? {cs rest : Chars} {v : Value} (h : scalarValue? cs = some (v, rest)) :
    v.Bounded := by
  unfold scalarValue? at h
  dsimp only at h
  split at h
  · cases h; trivial
  · split at h
    · cases h; trivial
    · split at h
      · rename_i n hn
        cases h
        exact bounded_of_integer? hn
      · split at h
        · cases h; trivial
        · split at h
          · split at h
            · split at h
              · split at h
                · cases h; trivial
                · cases h
              · cases h; trivial
            · cases h; trivial
          · split at h
            · cases h; trivial
            · cases h

theorem bounded_of_value? {n : Nat} {cs rest : Chars} {v : Value} (h : value? n cs = some (v, rest)) :
    v.Bounded := by
  cases n with
  | zero =>
    rw [value?] at h
    cases h
  | succ n =>
    unfold value? at h
    split at h
    · obtain ⟨_, -, h⟩ := Option.map_eq_some_iff.mp h
      cases h; trivial
    · obtain ⟨_, -, h⟩ := Option.map_eq_some_iff.mp h
      cases h; trivial
    · obtain ⟨_, -, h⟩ := Option.map_eq_some_iff.mp h
      cases h; trivial
    · split at h
      · cases h; trivial
      · obtain ⟨_, -, h⟩ := Option.map_eq_some_iff.mp h
        cases h; trivial
    · exact bounded_of_scalarValue? h

namespace Entries

variable {t t' : Entries} {key : String} {v : Value}

def Bounded (t : Entries) : Prop := ∀ e ∈ t, e.2.Bounded

theorem Bounded.append (h : t.Bounded) (key : String) (hv : v.Bounded) : Bounded (t ++ [(key, v)]) := by
  intro e he
  rcases List.mem_append.mp he with he | he
  · exact h e he
  · cases List.mem_singleton.mp he
    exact hv

theorem Bounded.put (h : t.Bounded) (key : String) (hv : v.Bounded) : Bounded (put t key v) := by
  intro e he
  obtain ⟨e', he', rfl⟩ := List.mem_map.mp he
  split
  · exact hv
  · exact h e' he'

theorem Bounded.erase (h : t.Bounded) (key : String) : Bounded (erase t key) :=
  fun e he => h e (List.mem_filter.mp he).1

theorem Bounded.insert {isInline whole : Bool} {form : Form} {path : List String} (h : t.Bounded)
    (hv : v.Bounded) (hins : insert isInline key v form path whole t = some t') : t'.Bounded := by
  have hmake : ∀ form sub, (if isInline then Value.inline form sub else Value.table form sub).Bounded := by
    intro form sub
    split <;> trivial
  cases path with
  | nil =>
    rw [Entries.insert] at hins
    split at hins
    · cases hins
      exact h.append key hv
    · cases hins
  | cons step path =>
    unfold Entries.insert at hins
    dsimp only at hins
    split at hins
    · obtain ⟨sub, -, rfl⟩ := Option.map_eq_some_iff.mp hins
      exact h.append step (hmake _ sub)
    · split at hins
      · cases hins
      · obtain ⟨sub, -, rfl⟩ := Option.map_eq_some_iff.mp hins
        exact h.put step (hmake _ sub)
    · split at hins
      · cases hins
      · obtain ⟨sub, -, rfl⟩ := Option.map_eq_some_iff.mp hins
        exact h.put step (hmake _ sub)
    · split at hins
      · cases hins
      · obtain ⟨sub, -, rfl⟩ := Option.map_eq_some_iff.mp hins
        exact h.put step trivial
    · cases hins

theorem Bounded.under {path : List String} {f : Entries → Option Entries} (h : t.Bounded)
    (hf : ∀ t', f t = some t' → t'.Bounded) (hunder : under path f t = some t') : t'.Bounded := by
  cases path with
  | nil => exact hf t' hunder
  | cons step path =>
    unfold Entries.under at hunder
    split at hunder
    · obtain ⟨sub, -, rfl⟩ := Option.map_eq_some_iff.mp hunder
      exact h.append step trivial
    · obtain ⟨sub, -, rfl⟩ := Option.map_eq_some_iff.mp hunder
      exact h.put step trivial
    · obtain ⟨sub, -, rfl⟩ := Option.map_eq_some_iff.mp hunder
      exact h.put step trivial
    · cases hunder

theorem Bounded.openArray (h : t.Bounded) (hopen : openArray key t = some t') : t'.Bounded := by
  unfold Entries.openArray at hopen
  split at hopen
  · cases hopen
    exact h.append key trivial
  · cases hopen
    exact h
  · cases hopen

theorem Bounded.takeOut (h : t.Bounded) (htake : (takeOut key t).map (·.2) = some t') : t'.Bounded := by
  obtain ⟨⟨taken, left⟩, htake, rfl⟩ := Option.map_eq_some_iff.mp htake
  unfold Entries.takeOut at htake
  split at htake
  · cases htake
    exact h
  · cases htake
    exact h.erase key
  · cases htake

end Entries

namespace Draft

variable {d d' : Draft} {key : String} {above : List String}

/-- The table being filled is the root until the first header. -/
structure Bounded (d : Draft) : Prop where
  root : d.root.Bounded
  current : d.path = [] → d.current.Bounded

theorem Bounded.start : ({} : Draft).Bounded := ⟨nofun, fun _ => nofun⟩

theorem Bounded.add {v : Value} (h : d.Bounded) (hv : v.Bounded) (hadd : d.add above key v = some d') :
    d'.Bounded := by
  obtain ⟨current, hcurrent, rfl⟩ := Option.map_eq_some_iff.mp hadd
  exact ⟨h.root, fun hpath => (h.current hpath).insert hv hcurrent⟩

theorem Bounded.finish {root : Entries} (h : d.Bounded) (hfinish : d.finish = some root) :
    root.Bounded := by
  unfold Draft.finish at hfinish
  split at hfinish
  · rename_i hlast
    cases hfinish
    exact h.current (List.getLast?_eq_none_iff.mp hlast)
  · refine h.root.under (fun t' ht' => ?_) hfinish
    split at ht'
    · split at ht'
      · cases ht'
        exact h.root.append _ trivial
      · cases ht'
        exact h.root.put _ trivial
      · cases ht'
    · split at ht'
      · cases ht'
      · cases ht'
        exact h.root.append _ trivial

theorem Bounded.header {isArray : Bool} (h : d.Bounded) (hheader : d.header above key isArray = some d') :
    d'.Bounded := by
  have hpath : above ++ [key] ≠ [] := List.append_ne_nil_of_right_ne_nil _ nofun
  simp only [Draft.header, Option.bind_eq_bind, Option.bind_eq_some_iff] at hheader
  obtain ⟨root, hroot, hheader⟩ := hheader
  have hbounded := h.finish hroot
  split at hheader
  · obtain ⟨root', hroot', hheader⟩ := Option.bind_eq_some_iff.mp hheader
    cases hheader
    exact ⟨hbounded.under (fun t' ht' => hbounded.openArray ht') hroot', fun hnil => absurd hnil hpath⟩
  · obtain ⟨current, -, hheader⟩ := Option.bind_eq_some_iff.mp hheader
    obtain ⟨root', hroot', hheader⟩ := Option.bind_eq_some_iff.mp hheader
    cases hheader
    exact ⟨hbounded.under (fun t' ht' => hbounded.takeOut ht') hroot', fun hnil => absurd hnil hpath⟩

theorem Bounded.pair? {cs rest : Chars} (h : d.Bounded) (hpair : pair? d cs = some (d', rest)) :
    d'.Bounded := by
  simp only [Toml.pair?, Option.bind_eq_bind, Option.bind_eq_some_iff] at hpair
  obtain ⟨⟨above, key, rest₁⟩, -, hpair⟩ := hpair
  split at hpair
  · obtain ⟨⟨v, rest₂⟩, hv, hpair⟩ := Option.bind_eq_some_iff.mp hpair
    obtain ⟨rest₃, -, hpair⟩ := Option.bind_eq_some_iff.mp hpair
    obtain ⟨d₁, hd₁, hpair⟩ := Option.bind_eq_some_iff.mp hpair
    cases hpair
    exact h.add (bounded_of_value? hv) hd₁
  · cases hpair

theorem Bounded.header? {cs rest : Chars} (h : d.Bounded) (hheader : header? d cs = some (d', rest)) :
    d'.Bounded := by
  have hended : ∀ (above : List String) (key : String) (isArray : Bool) (cs : Chars),
      ((lineEnd? cs).bind fun rest => (d.header above key isArray).bind fun d₁ => some (d₁, rest)) =
        some (d', rest) → d'.Bounded := by
    intro above key isArray cs hrest
    obtain ⟨_, -, hrest⟩ := Option.bind_eq_some_iff.mp hrest
    obtain ⟨d₁, hd₁, hrest⟩ := Option.bind_eq_some_iff.mp hrest
    cases hrest
    exact h.header hd₁
  unfold Toml.header? at hheader
  split at hheader
  · obtain ⟨⟨above, key, rest₁⟩, -, hheader⟩ := Option.bind_eq_some_iff.mp hheader
    dsimp only at hheader
    split at hheader
    · exact hended _ _ _ _ hheader
    · cases hheader
  · obtain ⟨⟨above, key, rest₁⟩, -, hheader⟩ := Option.bind_eq_some_iff.mp hheader
    dsimp only at hheader
    split at hheader
    · exact hended _ _ _ _ hheader
    · cases hheader
  · cases hheader

theorem Bounded.line? {cs rest : Chars} (h : d.Bounded) (hline : line? d cs = some (d', rest)) :
    d'.Bounded := by
  unfold Toml.line? at hline
  split at hline
  · cases hline
    exact h
  · split at hline
    · exact h.header? hline
    · split at hline
      · obtain ⟨_, -, hline⟩ := Option.map_eq_some_iff.mp hline
        cases hline
        exact h
      · exact h.pair? hline

theorem Bounded.lines? {n : Nat} {cs : Chars} (h : d.Bounded) (hlines : lines? n d cs = some d') :
    d'.Bounded := by
  induction n generalizing d cs with
  | zero =>
    cases cs with
    | nil =>
      cases hlines
      exact h
    | cons c cs => cases hlines
  | succ n ih =>
    cases cs with
    | nil =>
      cases hlines
      exact h
    | cons c cs =>
      obtain ⟨⟨d₁, rest⟩, hd₁, hlines⟩ := Option.bind_eq_some_iff.mp hlines
      exact ih (h.line? hd₁) hlines

end Draft

theorem bounded_of_parse? {text : String} {root : Entries} (h : parse? text = some root) :
    root.Bounded := by
  obtain ⟨d, hd, hfinish⟩ := Option.bind_eq_some_iff.mp h
  exact (Draft.Bounded.start.lines? hd).finish hfinish

end Replay.Toml
