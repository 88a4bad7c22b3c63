import Mathlib.Algebra.Group.Int.Defs
import Mathlib.Algebra.Group.Nat.Defs
import Replay.Config.Toml
import Replay.Proofs.Toml.Lines
import Replay.Proofs.Toml.Numbers

/-!
Configurations written to TOML and read again. Every accepted text gives a valid configuration that
round-trips, and so does every valid configuration whose numbers are below 2^63.
-/
namespace Replay.Config

/-- All numbers are below 2^63. -/
structure FitsToml (c : Config) : Prop where
  initial : c.initial < 2 ^ 63
  increment : c.increment < 2 ^ 63
  limit : ∀ count, c.limit.count? = some count → count < 2 ^ 63

theorem le_maxToml {n : Nat} : n ≤ maxToml ↔ n < 2 ^ 63 := by
  have hmax : maxToml + 1 = 2 ^ 63 := by decide
  omega

theorem le_maxValue {n : Nat} : (n : Int) ≤ Int64.maxValue.toInt ↔ n < 2 ^ 63 := by
  have hmax : Int64.maxValue.toInt + 1 = 2 ^ 63 := by decide
  omega

namespace Toml

open Replay.Toml

section reading

structure Fits (d : Config.Draft) : Prop where
  initial : ∀ n, d.initial = some n → n < 2 ^ 63
  increment : ∀ n, d.increment = some n → n < 2 ^ 63
  limit : ∀ l, d.limit = some l → ∀ count, l.count? = some count → count < 2 ^ 63

variable {d d' : Config.Draft} {v : Value}

theorem lt_of_size {n : Nat} (hv : v.Bounded) (h : size v = .ok n) : n < 2 ^ 63 := by
  unfold size at h
  split at h
  · rename_i m
    split at h
    · cases h
      have hmax := hv.2
      exact le_maxValue.mp (by omega)
    · cases h
  · cases h

theorem lt_of_limit {l : Limit} (hv : v.Bounded) (h : limit v = .ok l) :
    ∀ count, l.count? = some count → count < 2 ^ 63 := by
  unfold limit at h
  split at h
  · rename_i n
    unfold limitOfInt at h
    split at h
    · cases h
      nofun
    · split at h
      · cases h
        intro count hcount
        cases hcount
        have hmax := hv.2
        exact le_maxValue.mp (by omega)
      · cases h
  · unfold limitOfWord at h
    split at h
    · cases h
      nofun
    · cases h
  · cases h

theorem exists_of_bind {α β : Type} {x : Except Fault α} {k : α → Except Fault β} {b : β}
    (h : (x >>= k) = .ok b) : ∃ a, x = .ok a ∧ k a = .ok b := by
  cases x with
  | error e => cases h
  | ok a => exact ⟨a, rfl, h⟩

theorem Fits.of_field {f : Field} (h : Fits d) (hv : v.Bounded) (hfield : field d v f = .ok d') :
    Fits d' := by
  cases f with
  | initial =>
    obtain ⟨n, hn, hd⟩ := exists_of_bind hfield
    cases hd
    exact ⟨by rintro _ ⟨⟩; exact lt_of_size hv hn, h.increment, h.limit⟩
  | increment =>
    obtain ⟨n, hn, hd⟩ := exists_of_bind hfield
    cases hd
    exact ⟨h.initial, by rintro _ ⟨⟩; exact lt_of_size hv hn, h.limit⟩
  | limit =>
    obtain ⟨l, hl, hd⟩ := exists_of_bind hfield
    cases hd
    exact ⟨h.initial, h.increment, by rintro _ ⟨⟩; exact lt_of_limit hv hl⟩
  | ownership =>
    obtain ⟨o, -, hd⟩ := exists_of_bind hfield
    cases hd
    exact ⟨h.initial, h.increment, h.limit⟩

theorem Fits.of_fields {t : Entries} (h : Fits d) (ht : t.Bounded) (hfields : fields d t = .ok d') :
    Fits d' := by
  induction t generalizing d with
  | nil =>
    cases hfields
    exact h
  | cons e t ih =>
    obtain ⟨key, v⟩ := e
    obtain ⟨hv, ht⟩ := List.forall_mem_cons.mp ht
    unfold fields at hfields
    split at hfields
    · cases hfields
    · split at hfields
      · cases hfields
      · obtain ⟨d₁, hd₁, hfields⟩ := exists_of_bind hfields
        exact ih (h.of_field hv hd₁) ht hfields

theorem Fits.config (h : Fits d) : d.config.FitsToml := by
  have hsize : ∀ n : Option Nat, (∀ m, n = some m → m < 2 ^ 63) → n.getD 100 < 2 ^ 63 := by
    intro n hn
    cases n with
    | none => decide
    | some m => exact hn m rfl
  refine ⟨hsize _ h.initial, hsize _ h.increment, fun count hcount => ?_⟩
  cases hl : d.limit with
  | none =>
    rw [Config.Draft.config, hl] at hcount
    cases hcount
  | some l =>
    rw [Config.Draft.config, hl] at hcount
    exact h.limit l hl count hcount

end reading

section writing

variable {c : Config}

def fieldValue (c : Config) : Field → Value
  | .initial => .integer c.initial
  | .increment => .integer c.increment
  | .limit =>
    match c.limit.count? with
    | none => .string "unbounded"
    | some count => .integer count
  | .ownership => .string (ownershipWord c.ownership)

/-- The line written for a field; its value is written as in JSON. -/
def line (c : Config) (f : Field) : Line := ⟨f.name, Json.value c f, fieldValue c f⟩

theorem sound_quoted {key word : String} (hnamed : key.toList ≠ []) (hbare : ∀ ch ∈ key.toList, isBare ch)
    (hplain : ∀ ch ∈ word.toList, Plain ch) (hword : word.toList ≠ []) :
    (Line.mk key (Json.quoted word) (.string word)).Sound where
  named := hnamed
  bare := hbare
  starts := ⟨_, _, rfl, by decide⟩
  read depth rest := by
    rw [Json.quoted_append]
    exact value?_quoted hplain hword depth

theorem sound_toDigits {key : String} {n : Nat} (hnamed : key.toList ≠ [])
    (hbare : ∀ ch ∈ key.toList, isBare ch) (hn : n < 2 ^ 63) :
    (Line.mk key (Nat.toDigits 10 n) (.integer n)).Sound where
  named := hnamed
  bare := hbare
  starts := by
    obtain ⟨ch, more, htext, hdigit⟩ := Json.exists_toDigits n
    have hbare : isBare ch := by simp [isBare, Char.isAlphanum, hdigit]
    exact ⟨ch, more, htext, isBlank_of_isBare hbare⟩
  read depth rest := value?_toDigits (le_maxValue.mpr hn) depth

theorem sound_line (h : c.FitsToml) (f : Field) : (line c f).Sound := by
  have hnamed : f.name.toList ≠ [] := by cases f <;> decide
  have hbare : ∀ ch ∈ f.name.toList, isBare ch := List.all_eq_true.mp (by cases f <;> rfl)
  cases f with
  | initial => exact sound_toDigits hnamed hbare h.initial
  | increment => exact sound_toDigits hnamed hbare h.increment
  | limit =>
    obtain ⟨initial, increment, limit, ownership⟩ := c
    cases limit with
    | unbounded => exact sound_quoted hnamed hbare (plain_of_all rfl) (by decide)
    | limited count positive => exact sound_toDigits hnamed hbare (h.limit count rfl)
  | ownership =>
    have hword : (ownershipWord c.ownership).toList ≠ [] := by cases c.ownership <;> decide
    exact sound_quoted hnamed hbare (plain_of_all (by cases c.ownership <;> rfl)) hword

theorem field_fieldValue (c : Config) (d : Config.Draft) (f : Field) :
    field d (fieldValue c f) f = .ok (d.take c f) := by
  have hsize (n : Nat) : size (.integer n) = .ok n := by simp [size]
  cases f with
  | initial =>
    rw [field, fieldValue, hsize]
    rfl
  | increment =>
    rw [field, fieldValue, hsize]
    rfl
  | limit =>
    have hlimit : limit (fieldValue c .limit) = .ok c.limit := by
      unfold fieldValue
      cases c.limit with
      | unbounded =>
        show limitOfWord "unbounded" = _
        rw [limitOfWord, if_pos (by decide +kernel)]
      | limited count positive => exact Json.limitOfInt_natCast positive
    rw [field, hlimit]
    rfl
  | ownership =>
    have hownership : ownership (fieldValue c .ownership) = .ok c.ownership := by
      rw [fieldValue, ownership, ownershipOf, ownershipOfWord?_word]
    rw [field, hownership]
    rfl

theorem fields_map {fs : List Field} {d : Config.Draft} (hnodup : fs.Nodup)
    (hnew : ∀ f ∈ fs, d.has f = false) :
    fields d (fs.map fun f => (f.name, fieldValue c f)) = .ok (fs.foldl (·.take c) d) := by
  induction fs generalizing d with
  | nil => rfl
  | cons f fs ih =>
    obtain ⟨hf, hnodup⟩ := List.nodup_cons.mp hnodup
    obtain ⟨hfirst, hnew⟩ := List.forall_mem_cons.mp hnew
    have hnext : ∀ g ∈ fs, (d.take c f).has g = false := fun g hg => by
      have hne : g ≠ f := fun heq => hf (heq ▸ hg)
      rw [Draft.has_take hne]
      exact hnew g hg
    rw [List.map_cons, fields]
    simp only [Field.ofKey?_name, hfirst, Bool.false_eq_true, if_false, field_fieldValue, bind,
      Except.bind]
    exact ih hnodup hnext

theorem toml?_eq (h : c.FitsToml) :
    c.toml? = some (String.ofList ((Field.all.map (line c)).flatMap Line.chars)) := by
  have hlimit : (limitToml c.limit).toList = Json.limitText c.limit := by
    cases c.limit with
    | unbounded => rfl
    | limited count positive => exact Nat.toList_repr
  have hcount : c.limit.count?.all (decide <| · ≤ maxToml) = true := by
    rw [Option.all_eq_true]
    exact fun count hcount => decide_eq_true (le_maxToml.mpr (h.limit count hcount))
  have htext (s : String) : toString s = s := rfl
  rw [toml?, if_pos ⟨le_maxToml.mpr h.initial, le_maxToml.mpr h.increment, hcount⟩]
  congr 1
  apply String.toList_inj.mp
  simp [htext, hlimit, Field.all, line, Line.chars, Json.value, Json.quoted]

end writing

end Toml

theorem ofToml_of_fields {text : String} {root : List (String × Replay.Toml.Value)} {d : Config.Draft}
    (hroot : Replay.Toml.parse? text = some root) (hd : Toml.fields {} root = .ok d)
    (hvalid : d.config.validate = .ok ()) : ofToml text = .ok d.config := by
  simp only [ofToml, hroot, hd, hvalid]

theorem ofToml_toml? {c : Config} (hvalid : c.validate = .ok ()) (h : c.FitsToml) :
    ∃ written, c.toml? = some written ∧ ofToml written = .ok c := by
  have hsound : ∀ l ∈ Field.all.map (Toml.line c), l.Sound :=
    List.forall_mem_map.mpr fun f _ => Toml.sound_line h f
  have hnodup : ((Field.all.map (Toml.line c)).map Replay.Toml.Line.key).Nodup := by
    rw [List.map_map]
    show (Field.all.map Field.name).Nodup
    decide
  refine ⟨_, Toml.toml?_eq h, ?_⟩
  have hroot := Replay.Toml.parse?_lines hsound hnodup
  rw [List.map_map] at hroot
  have hfields : Toml.fields {} (Field.all.map fun f => (f.name, Toml.fieldValue c f)) = .ok _ :=
    Toml.fields_map (by decide) (by decide)
  exact ofToml_of_fields hroot hfields hvalid

theorem eq_ok_of_toOption {ε α : Type} {x : Except ε α} {a : α} (h : x.toOption = some a) : x = .ok a := by
  cases x with
  | error e => cases h
  | ok b =>
    cases h
    rfl

theorem fitsToml_of_ofToml {text : String} {c : Config} (h : ofToml text = .ok c) : c.FitsToml := by
  unfold ofToml at h
  split at h
  · cases h
  · rename_i root hroot
    split at h
    · cases h
    · rename_i d hd
      split at h
      · cases h
      · cases h
        have hstart : Toml.Fits {} := ⟨nofun, nofun, nofun⟩
        exact (hstart.of_fields (Replay.Toml.bounded_of_parse? hroot) hd).config

/-- The configuration read from a text is valid, can be written, and is read again from what was
written. Every valid configuration with numbers below 2^63 is read from the text written for it. -/
theorem ofToml_faithful :
    (∀ text c, ofToml text = .ok c →
      c.validate = .ok () ∧ 0 < c.initial ∧
      (∀ count, c.limit.count? = some count → c.initial ≤ count) ∧ c.FitsToml ∧
      ∃ written, c.toml? = some written ∧ ofToml written = .ok c) ∧
    ∀ c : Config, c.validate = .ok () → c.FitsToml →
      ∃ written, c.toml? = some written ∧ ofToml written = .ok c := by
  refine ⟨fun text c h => ?_, fun c hvalid hfits => ofToml_toml? hvalid hfits⟩
  have hvalid := validate_of_ofToml h
  have hfits := fitsToml_of_ofToml h
  obtain ⟨hinitial, hlimit⟩ := validate_ok_iff.mp hvalid
  exact ⟨hvalid, hinitial, hlimit, hfits, ofToml_toml? hvalid hfits⟩

/-- A text with the sentinel for no limit, which is written differently; and the greatest numbers. -/
theorem ofToml_faithful_sentinel :
    ofToml "maxBufferSize = -1\ninitialBufferSize = 7 # small\n" = .ok ⟨7, 100, .unbounded, .owned⟩ ∧
    (⟨7, 100, .unbounded, .owned⟩ : Config).toml? ≠
      some "maxBufferSize = -1\ninitialBufferSize = 7 # small\n" ∧
    (∃ written, (⟨7, 100, .unbounded, .owned⟩ : Config).toml? = some written ∧
      ofToml written = .ok ⟨7, 100, .unbounded, .owned⟩) ∧
    ∃ written, (⟨1, 2 ^ 63 - 1, .limited (2 ^ 63 - 1) (by decide), .borrowed⟩ : Config).toml? = some written ∧
      ofToml written = .ok ⟨1, 2 ^ 63 - 1, .limited (2 ^ 63 - 1) (by decide), .borrowed⟩ := by
  have hread : ofToml "maxBufferSize = -1\ninitialBufferSize = 7 # small\n" =
      .ok ⟨7, 100, .unbounded, .owned⟩ := eq_ok_of_toOption (by decide +kernel)
  refine ⟨hread, by decide +kernel, (ofToml_faithful.1 _ _ hread).2.2.2.2, ?_⟩
  have hvalid : (⟨1, 2 ^ 63 - 1, .limited (2 ^ 63 - 1) (by decide), .borrowed⟩ : Config).validate = .ok () :=
    validate_ok_iff.mpr ⟨by decide, by rintro _ ⟨⟩; decide⟩
  exact ofToml_faithful.2 _ hvalid ⟨by decide, by decide, by rintro _ ⟨⟩; decide⟩

end Replay.Config
