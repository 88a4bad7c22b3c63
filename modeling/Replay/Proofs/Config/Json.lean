import Replay.Config.Json

/-!
Configurations written to JSON and read again. Sizes are read as unsigned 64-bit numbers, limits as
signed ones. So a limit of 2^63 or more is written but not read; every other configuration round-trips.
-/
namespace Replay.Config

theorem digitChar_ne_zero : ∀ n < 10, 0 < n → n.digitChar ≠ '0' := by decide

theorem head?_toDigits {n : Nat} (h : 0 < n) : (Nat.toDigits 10 n).head? ≠ some '0' := by
  induction n using Nat.strongRecOn with
  | ind n ih =>
    by_cases hn : n < 10
    · rw [Nat.toDigits_of_lt_base hn, List.head?_cons]
      exact fun hzero => digitChar_ne_zero n hn h (Option.some.inj hzero)
    · have hdiv : 0 < n / 10 := by omega
      have hsplit : Nat.toDigits 10 n = Nat.toDigits 10 (n / 10) ++ Nat.toDigits 10 (n % 10) := by
        rw [Nat.toDigits_append_toDigits (by decide) hdiv (Nat.mod_lt _ (by decide)), Nat.div_add_mod]
      have hhead := List.head?_eq_some_head (Nat.toDigits_ne_nil (b := 10) (n := n / 10))
      rw [hsplit, List.head?_append, hhead, Option.some_or, ← hhead]
      exact ih (n / 10) (by omega) hdiv

def Draft.take (c : Config) (d : Draft) : Field → Draft
  | .initial => { d with initial := some c.initial }
  | .increment => { d with increment := some c.increment }
  | .limit => { d with limit := some c.limit }
  | .ownership => { d with ownership := some c.ownership }

theorem Draft.has_take {c : Config} {d : Draft} {f g : Field} (h : g ≠ f) :
    (d.take c f).has g = d.has g := by
  cases f <;> cases g <;> first | rfl | exact absurd rfl h

namespace Json

variable {cs rest : Chars} {d : Draft}

def Stops (rest : Chars) : Prop :=
  ∀ c, rest.head? = some c → c.isDigit = false ∧ c ≠ '.' ∧ c ≠ 'e' ∧ c ≠ 'E'

theorem stops_cons {c : Char} (h : c.isDigit = false ∧ c ≠ '.' ∧ c ≠ 'e' ∧ c ≠ 'E') :
    Stops (c :: rest) := by
  intro c' hc
  cases hc
  exact h

/-- A character written without an escape. -/
def Plain (c : Char) : Prop := c ≠ '"' ∧ c ≠ '\\' ∧ ¬c < ' '

def quoted (word : String) : Chars := '"' :: word.toList ++ ['"']

theorem stringBody_cons {c : Char} (h : Plain c) :
    stringBody (c :: cs) = (stringBody cs).map fun (body, rest) => (c :: body, rest) := by
  obtain ⟨hquote, hslash, hlow⟩ := h
  rw [stringBody.eq_def]
  split
  next heq => cases heq
  next heq => exact absurd (List.cons.inj heq).1 hquote
  next heq => exact absurd (List.cons.inj heq).1 hslash
  next heq => exact absurd (List.cons.inj heq).1 hslash
  next heq =>
    obtain ⟨rfl, rfl⟩ := List.cons.inj heq
    rw [if_neg (not_or.mpr ⟨hslash, hlow⟩)]
    cases stringBody cs <;> rfl

theorem stringBody_plain (h : ∀ c ∈ cs, Plain c) :
    stringBody (cs ++ '"' :: rest) = some (cs, rest) := by
  induction cs with
  | nil => simp [stringBody]
  | cons c cs ih =>
    have hbody := ih fun c hc => h c (List.mem_cons_of_mem _ hc)
    rw [List.cons_append, stringBody_cons (h c List.mem_cons_self), hbody, Option.map_some]

theorem quoted_append (word : String) :
    quoted word ++ rest = '"' :: (word.toList ++ '"' :: rest) := by
  simp [quoted]

theorem skip_quoted (word : String) : skip (quoted word ++ rest) = quoted word ++ rest := by
  simp [quoted_append, skip, isBlank]

theorem string_quoted {word : String} (h : ∀ c ∈ word.toList, Plain c) :
    string (quoted word ++ rest) = .ok (word, rest) := by
  rw [string, skip_quoted, quoted_append]
  simp only [stringBody_plain h, String.ofList_toList]

theorem natural_toDigits (n : Nat) (hrest : Stops rest) :
    natural (Nat.toDigits 10 n ++ rest) = .ok (n, rest) := by
  have hdigits : ∀ c ∈ Nat.toDigits 10 n, c.isDigit :=
    fun c hc => Nat.isDigit_of_mem_toDigits (by decide) (by decide) hc
  have hnone : rest.takeWhile Char.isDigit = [] ∧ rest.dropWhile Char.isDigit = rest := by
    cases rest with
    | nil => exact ⟨rfl, rfl⟩
    | cons c rest => simp [(hrest c rfl).1]
  have hends : ¬(rest.head? = some '.' ∨ rest.head? = some 'e' ∨ rest.head? = some 'E') := by
    rintro (h | h | h)
    · exact (hrest _ h).2.1 rfl
    · exact (hrest _ h).2.2.1 rfl
    · exact (hrest _ h).2.2.2 rfl
  have hfirst : ¬(Nat.toDigits 10 n = [] ∨
      ((Nat.toDigits 10 n).head? = some '0' ∧ Nat.toDigits 10 n ≠ ['0'])) := by
    rintro (h | ⟨hzero, hmore⟩)
    · exact Nat.toDigits_ne_nil h
    · cases n with
      | zero => exact hmore rfl
      | succ n => exact head?_toDigits (Nat.succ_pos n) hzero
  simp only [natural, List.takeWhile_append_of_pos hdigits, List.dropWhile_append_of_pos hdigits,
    hnone.1, hnone.2, List.append_nil, if_neg hfirst, if_neg hends,
    Nat.ofDigitChars_toDigits (by decide : 1 < 10) (Nat.le_refl 10)]

theorem exists_toDigits (n : Nat) : ∃ c more, Nat.toDigits 10 n = c :: more ∧ c.isDigit := by
  cases hn : Nat.toDigits 10 n with
  | nil => exact absurd hn Nat.toDigits_ne_nil
  | cons c more =>
    have hmem : c ∈ Nat.toDigits 10 n := hn ▸ List.mem_cons_self
    exact ⟨c, more, rfl, Nat.isDigit_of_mem_toDigits (by decide) (by decide) hmem⟩

theorem skip_digit {c : Char} (h : c.isDigit) : skip (c :: rest) = c :: rest := by
  have hblank : isBlank c = false := by
    rw [← Bool.not_eq_true]
    intro hc
    simp only [isBlank, Bool.or_eq_true, decide_eq_true_eq] at hc
    rcases hc with ((rfl | rfl) | rfl) | rfl <;> exact absurd h (by decide)
  simp [skip, hblank]

theorem skip_toDigits (n : Nat) : skip (Nat.toDigits 10 n ++ rest) = Nat.toDigits 10 n ++ rest := by
  obtain ⟨c, more, hn, hdigit⟩ := exists_toDigits n
  rw [hn]
  exact skip_digit hdigit

theorem size_toDigits (n : Nat) (hrest : Stops rest) :
    size (Nat.toDigits 10 n ++ rest) = if n ≤ maxSize then .ok (n, rest) else malformed := by
  rw [size, skip_toDigits, natural_toDigits n hrest]
  rfl

/-- The limit can be read back: limits are read as `i64`. -/
def Readable (l : Limit) : Prop :=
  ∀ count, l.count? = some count → (count : Int) ≤ Int64.maxValue.toInt

instance (l : Limit) : Decidable (Readable l) :=
  decidable_of_iff (l.count?.all fun count => (count : Int) ≤ Int64.maxValue.toInt) (by
    cases l <;> simp [Readable, Limit.count?])

theorem limit_word : limit (quoted "unbounded" ++ rest) = .ok (.unbounded, rest) := by
  have hstring : string (quoted "unbounded" ++ rest) = .ok ("unbounded", rest) :=
    string_quoted (by simp [Plain])
  have hlimit : limitOfWord "unbounded" = .ok .unbounded := by
    rw [limitOfWord, if_pos (by decide +kernel)]
  rw [limit, skip_quoted, quoted_append]
  rw [quoted_append] at hstring
  simp only [hstring, hlimit, bind, Except.bind, pure, Except.pure]

theorem limitOfInt_natCast {count : Nat} (positive : 0 < count) :
    limitOfInt (count : Int) = .ok (.limited count positive) := by
  have hne : (count : Int) ≠ -1 := by omega
  simp [limitOfInt, hne, positive]

theorem limit_toDigits {count : Nat} (positive : 0 < count) (h : Stops rest) :
    limit (Nat.toDigits 10 count ++ rest) =
      if (count : Int) ≤ Int64.maxValue.toInt then .ok (.limited count positive, rest)
      else malformed := by
  obtain ⟨c, more, hcount, hdigit⟩ := exists_toDigits count
  have hnatural := natural_toDigits count h
  rw [hcount, List.cons_append] at hnatural
  rw [limit, skip_toDigits, hcount, List.cons_append]
  split
  next heq =>
    cases heq
    exact absurd hdigit (by decide)
  next heq =>
    cases heq
    exact absurd hdigit (by decide)
  next =>
    rw [hnatural]
    simp only [bind, Except.bind, pure, Except.pure, limitOfInt_natCast positive]
    split
    next hlt => rw [if_neg (Int.not_le.mpr hlt)]
    next hle => rw [if_pos (Int.not_lt.mp hle)]

theorem ownership_word (o : Ownership) :
    ownership (quoted (ownershipWord o) ++ rest) = .ok (o, rest) := by
  have hplain : ∀ c ∈ (ownershipWord o).toList, Plain c := by cases o <;> simp [ownershipWord, Plain]
  have hstring : string (quoted (ownershipWord o) ++ rest) = .ok (ownershipWord o, rest) :=
    string_quoted hplain
  rw [ownership, skip_quoted, quoted_append]
  rw [quoted_append] at hstring
  split
  next heq => exact absurd (List.cons.inj heq).1 (by decide)
  next =>
    rw [hstring]
    simp only [bind, Except.bind, ownershipOf, ownershipOfWord?_word]

def limitText : Limit → Chars
  | .unbounded => quoted "unbounded"
  | .limited count _ => Nat.toDigits 10 count

theorem limit_limitText (l : Limit) (h : Stops rest) :
    limit (limitText l ++ rest) = if Readable l then .ok (l, rest) else malformed := by
  cases l with
  | unbounded =>
    rw [if_pos (by simp [Readable, Limit.count?])]
    exact limit_word
  | limited count positive =>
    rw [limitText, limit_toDigits positive h]
    simp [Readable, Limit.count?]

def value (c : Config) : Field → Chars
  | .initial => Nat.toDigits 10 c.initial
  | .increment => Nat.toDigits 10 c.increment
  | .limit => limitText c.limit
  | .ownership => quoted (ownershipWord c.ownership)

def entry (c : Config) (f : Field) : Chars := quoted f.name ++ ':' :: value c f

/-- The value of the field can be read back. -/
def Returns (c : Config) : Field → Prop
  | .initial => c.initial ≤ maxSize
  | .increment => c.increment ≤ maxSize
  | .limit => Readable c.limit
  | .ownership => True

instance (c : Config) : (f : Field) → Decidable (Returns c f)
  | .initial => inferInstanceAs (Decidable (c.initial ≤ maxSize))
  | .increment => inferInstanceAs (Decidable (c.increment ≤ maxSize))
  | .limit => inferInstanceAs (Decidable (Readable c.limit))
  | .ownership => inferInstanceAs (Decidable True)

theorem read_bind {α β : Type} {p : Prop} [Decidable p] {a : α} {k : α → Except Fault β} :
    ((if p then .ok a else malformed) >>= k) = if p then k a else malformed := by
  split <;> rfl

theorem field_value (c : Config) (f : Field) (h : Stops rest) :
    field f d (value c f ++ rest) =
      if Returns c f then .ok (d.take c f, rest) else malformed := by
  cases f with
  | initial =>
    rw [field, value, size_toDigits c.initial h, read_bind]
    rfl
  | increment =>
    rw [field, value, size_toDigits c.increment h, read_bind]
    rfl
  | limit =>
    rw [field, value, limit_limitText c.limit h, read_bind]
    rfl
  | ownership =>
    rw [field, value, ownership_word]
    rfl

theorem member_entry {c : Config} {f : Field} (hnew : d.has f = false) (h : Stops rest) :
    member d (entry c f ++ rest) = if Returns c f then .ok (d.take c f, rest) else malformed := by
  have hplain : ∀ ch ∈ f.name.toList, Plain ch := by cases f <;> simp [Field.name, Plain]
  have hstring : string (entry c f ++ rest) = .ok (f.name, ':' :: (value c f ++ rest)) := by
    rw [entry, List.append_assoc, List.cons_append, string_quoted hplain]
  have hskip : skip (':' :: (value c f ++ rest)) = ':' :: (value c f ++ rest) := rfl
  rw [member, hstring]
  simp only [bind, Except.bind, Field.ofKey?_name, hnew, Bool.false_eq_true, if_false, hskip]
  exact field_value c f h

theorem stops_members (c : Config) (fs : List Field) (rest : Chars) :
    Stops (fs.flatMap (fun f => ',' :: entry c f) ++ '\x7d' :: rest) := by
  cases fs with
  | nil => exact stops_cons (by decide)
  | cons f fs => exact stops_cons (by decide)

theorem members_entries {c : Config} {fs : List Field} (hnodup : fs.Nodup)
    (hnew : ∀ f ∈ fs, d.has f = false) :
    members fs.length d (fs.flatMap (fun f => ',' :: entry c f) ++ '\x7d' :: rest) =
      if ∀ f ∈ fs, Returns c f then .ok (fs.foldl (·.take c) d, rest) else malformed := by
  induction fs generalizing d with
  | nil => rfl
  | cons f fs ih =>
    obtain ⟨hf, hnodup⟩ := List.nodup_cons.mp hnodup
    have hnext : ∀ g ∈ fs, (d.take c f).has g = false := fun g hg => by
      have hne : g ≠ f := fun heq => hf (heq ▸ hg)
      rw [Draft.has_take hne]
      exact hnew g (List.mem_cons_of_mem f hg)
    have hmember := member_entry (c := c) (hnew f List.mem_cons_self)
      (stops_members c fs rest)
    have hskip : skip (',' :: entry c f ++ (fs.flatMap (fun f => ',' :: entry c f) ++ '\x7d' :: rest)) =
      ',' :: (entry c f ++ (fs.flatMap (fun f => ',' :: entry c f) ++ '\x7d' :: rest)) := rfl
    rw [List.flatMap_cons, List.append_assoc, List.length_cons, members, hskip]
    show (member d _ >>= _) = _
    rw [hmember, read_bind]
    by_cases hreturns : Returns c f
    · rw [if_pos hreturns]
      refine (ih hnodup hnext).trans ?_
      simp only [List.forall_mem_cons, hreturns, true_and, List.foldl_cons]
    · rw [if_neg hreturns, if_neg fun h => hreturns (h f List.mem_cons_self)]

theorem object_entries {c : Config} {f : Field} {fs : List Field} (hnodup : (f :: fs).Nodup)
    (hlength : fs.length = 3) :
    object (entry c f ++ (fs.flatMap (fun f => ',' :: entry c f) ++ ['\x7d'])) =
      if ∀ g ∈ f :: fs, Returns c g then .ok ((f :: fs).foldl (·.take c) {}, []) else malformed := by
  obtain ⟨hf, hnodup⟩ := List.nodup_cons.mp hnodup
  have hmember := member_entry (c := c) (d := {}) (f := f) (by cases f <;> rfl)
    (stops_members c fs [])
  have hnext : ∀ g ∈ fs, (Draft.take c {} f).has g = false := fun g hg => by
    have hne : g ≠ f := fun heq => hf (heq ▸ hg)
    rw [Draft.has_take hne]
    cases g <;> rfl
  have hmembers : members 3 (Draft.take c {} f) (fs.flatMap (fun f => ',' :: entry c f) ++ ['\x7d']) =
      if ∀ g ∈ fs, Returns c g then .ok (fs.foldl (·.take c) (Draft.take c {} f), []) else malformed :=
    hlength ▸ members_entries hnodup hnext
  have hskip : skip (entry c f ++ (fs.flatMap (fun f => ',' :: entry c f) ++ ['\x7d'])) =
      entry c f ++ (fs.flatMap (fun f => ',' :: entry c f) ++ ['\x7d']) := by
    rw [entry, List.append_assoc, skip_quoted]
  rw [object, hskip]
  split
  next heq =>
    rw [entry, List.append_assoc, quoted_append] at heq
    exact absurd (List.cons.inj heq).1 (by decide)
  next =>
    rw [hmember, read_bind]
    by_cases hreturns : Returns c f
    · rw [if_pos hreturns]
      refine hmembers.trans ?_
      simp only [List.forall_mem_cons, hreturns, true_and, List.foldl_cons]
    · rw [if_neg hreturns, if_neg fun h => hreturns (h f List.mem_cons_self)]

theorem toList_json (c : Config) :
    c.json.toList = '\x7b' :: (entry c .initial ++
      ([Field.increment, .limit, .ownership].flatMap (fun f => ',' :: entry c f) ++ ['\x7d'])) := by
  have hlimit : (limitJson c.limit).toList = limitText c.limit := by
    cases c.limit with
    | unbounded => rfl
    | limited count positive => exact Nat.toList_repr
  have htext (s : String) : toString s = s := rfl
  simp [json, htext, hlimit, entry, value, quoted]

end Json

/-- A configuration that is written and read again comes back iff its sizes are at most `usize::MAX` and
its limit fits `i64`. -/
theorem ofJson_json (c : Config) :
    ofJson c.json =
      if c.initial ≤ maxSize ∧ c.increment ≤ maxSize ∧ Json.Readable c.limit then .ok c
      else .error .malformed := by
  have hskip : Json.skip c.json.toList = c.json.toList := by
    rw [Json.toList_json]
    rfl
  have hnodup : [Field.initial, .increment, .limit, .ownership].Nodup := by decide
  have hobject := Json.object_entries (c := c) hnodup rfl
  have hfields : (∀ g ∈ [Field.initial, .increment, .limit, .ownership], Json.Returns c g) ↔
      c.initial ≤ maxSize ∧ c.increment ≤ maxSize ∧ Json.Readable c.limit := by
    simp [Json.Returns]
  rw [ofJson, Json.document, hskip, Json.toList_json]
  show (Json.object _ >>= _) = _
  rw [hobject, Json.read_bind]
  simp only [hfields]
  rfl

/-- A limit of 2^63 is written but not read again. -/
theorem limit_not_returned :
    9223372036854775808 ≤ maxSize ∧
      (ofJson (json ⟨100, 100, .limited 9223372036854775808 (by decide), .owned⟩)).toOption =
        none := by
  decide +kernel

end Replay.Config
