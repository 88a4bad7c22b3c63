import Replay.Proofs.Config.Json
import Replay.Toml.Document

/-!
Documents of one key per line. Decimal numbers and quoted words are read as written, and the root table
of such a document has its keys and values in order, if no key is repeated.
-/
namespace Replay.Toml

variable {cs rest : Chars} {c : Char}

section numbers

theorem toNat_of_isDigit (h : c.isDigit) : 48 ≤ c.toNat ∧ c.toNat ≤ 57 := by
  rw [Char.isDigit, Bool.and_eq_true, decide_eq_true_eq, decide_eq_true_eq] at h
  exact ⟨UInt32.le_iff_toNat_le.mp h.1, UInt32.le_iff_toNat_le.mp h.2⟩

theorem digitIn?_of_isDigit (h : c.isDigit) : digitIn? 10 c = some (c.toNat - 48) := by
  obtain ⟨hlow, hhigh⟩ := toNat_of_isDigit h
  have hrange : '0' ≤ c ∧ c ≤ '9' := by
    rw [Char.isDigit, Bool.and_eq_true, decide_eq_true_eq, decide_eq_true_eq] at h
    exact h
  rw [digitIn?, if_pos hrange, if_pos (by omega)]

theorem digits?_of_isDigit (hne : cs ≠ []) (h : ∀ c ∈ cs, c.isDigit) : digits? 10 cs = some cs := by
  induction cs with
  | nil => exact absurd rfl hne
  | cons c cs ih =>
    have hdigit := digitIn?_of_isDigit (h c List.mem_cons_self)
    have hrest : ∀ c ∈ cs, c.isDigit := fun c hc => h c (List.mem_cons_of_mem _ hc)
    cases cs with
    | nil => simp [digits?, hdigit]
    | cons d cs =>
      have hunderscore : d ≠ '_' := by
        rintro rfl
        exact absurd (hrest '_' List.mem_cons_self) (by decide)
      have hmore := ih (List.cons_ne_nil d cs) hrest
      rw [digits?]
      · rw [hdigit, hmore]
        rfl
      · nofun
      · intro more hmem
        exact hunderscore (List.cons.inj hmem).1

theorem valueIn_of_isDigit (h : ∀ c ∈ cs, c.isDigit) :
    valueIn 10 cs = some (Nat.ofDigitChars 10 cs 0) := by
  suffices hfrom : ∀ n, cs.foldlM (fun n c => (digitIn? 10 c).map (10 * n + ·)) n =
      some (Nat.ofDigitChars 10 cs n) from hfrom 0
  induction cs with
  | nil => exact fun n => rfl
  | cons c cs ih =>
    intro n
    have hrest : ∀ c ∈ cs, c.isDigit := fun c hc => h c (List.mem_cons_of_mem _ hc)
    rw [List.foldlM_cons, digitIn?_of_isDigit (h c List.mem_cons_self)]
    exact ih hrest _

theorem isDigit_of_mem_toDigits {n : Nat} (h : c ∈ Nat.toDigits 10 n) : c.isDigit :=
  Nat.isDigit_of_mem_toDigits (by decide) (by decide) h

theorem decimal?_toDigits (n : Nat) : decimal? (Nat.toDigits 10 n) = some n := by
  have hdigits : ∀ c ∈ Nat.toDigits 10 n, c.isDigit := fun c hc => isDigit_of_mem_toDigits hc
  have hfirst : ¬((Nat.toDigits 10 n).head? = some '0' ∧ Nat.toDigits 10 n ≠ ['0']) := by
    rintro ⟨hzero, hmore⟩
    cases n with
    | zero => exact hmore rfl
    | succ n => exact Config.head?_toDigits (Nat.succ_pos n) hzero
  rw [decimal?, digits?_of_isDigit Nat.toDigits_ne_nil hdigits]
  show (if _ then none else valueIn 10 (Nat.toDigits 10 n)) = some n
  rw [if_neg hfirst, valueIn_of_isDigit hdigits,
    Nat.ofDigitChars_toDigits (by decide : 1 < 10) (Nat.le_refl 10)]

theorem integer?_toDigits {n : Nat} (h : (n : Int) ≤ Int64.maxValue.toInt) :
    integer? (Nat.toDigits 10 n) = some (n : Int) := by
  have hmin : Int64.minValue.toInt ≤ (n : Int) := by
    have : Int64.minValue.toInt ≤ 0 := by decide
    omega
  have hdigits : ∀ c ∈ Nat.toDigits 10 n, c.isDigit := fun c hc => isDigit_of_mem_toDigits hc
  have hnot : ∀ c ∈ Nat.toDigits 10 n, ∀ mark, mark.isDigit = false → c ≠ mark := by
    rintro c hc mark hmark rfl
    exact absurd (hdigits c hc) (by rw [hmark]; decide)
  have hsign : unsigned? (Nat.toDigits 10 n) = (false, Nat.toDigits 10 n) := by
    unfold unsigned?
    split
    next hcs => exact absurd rfl (hnot '+' (hcs ▸ List.mem_cons_self) '+' (by decide))
    next hcs => exact absurd rfl (hnot '-' (hcs ▸ List.mem_cons_self) '-' (by decide))
    next => rfl
  unfold integer?
  split
  next rest hcs => exact absurd rfl (hnot 'x' (by rw [hcs]; simp) 'x' (by decide))
  next rest hcs => exact absurd rfl (hnot 'o' (by rw [hcs]; simp) 'o' (by decide))
  next rest hcs => exact absurd rfl (hnot 'b' (by rw [hcs]; simp) 'b' (by decide))
  next =>
    rw [hsign]
    dsimp only
    rw [decimal?_toDigits]
    show (if _ then some (n : Int) else none) = _
    rw [if_pos ⟨hmin, h⟩]

theorem isPlain_of_isDigit (h : c.isDigit) : isPlain c = true := by
  simp [isPlain, isBare, Char.isAlphanum, h]

theorem value?_toDigits {n : Nat} (h : (n : Int) ≤ Int64.maxValue.toInt) (depth : Nat) :
    value? (depth + 1) (Nat.toDigits 10 n ++ '\n' :: rest) = some (.integer n, '\n' :: rest) := by
  have hdigits : ∀ c ∈ Nat.toDigits 10 n, c.isDigit := fun c hc => isDigit_of_mem_toDigits hc
  have hplain : ∀ c ∈ Nat.toDigits 10 n, isPlain c = true := fun c hc => isPlain_of_isDigit (hdigits c hc)
  have hends : isPlain '\n' = false := by decide
  have htake : (Nat.toDigits 10 n ++ '\n' :: rest).takeWhile isPlain = Nat.toDigits 10 n := by
    rw [List.takeWhile_append_of_pos hplain, List.takeWhile_cons_of_neg (by simp [hends]), List.append_nil]
  have hdrop : (Nat.toDigits 10 n ++ '\n' :: rest).dropWhile isPlain = '\n' :: rest := by
    rw [List.dropWhile_append_of_pos hplain, List.dropWhile_cons_of_neg (by simp [hends])]
  have hscalar : scalarValue? (Nat.toDigits 10 n ++ '\n' :: rest) = some (.integer n, '\n' :: rest) := by
    have hword : ∀ c more, c.isDigit = false → Nat.toDigits 10 n ≠ c :: more := by
      intro c more hc heq
      have := hdigits c (heq ▸ List.mem_cons_self)
      rw [hc] at this
      cases this
    unfold scalarValue?
    dsimp only
    rw [htake, hdrop, if_neg (hword _ _ (by decide)), if_neg (hword _ _ (by decide)), integer?_toDigits h]
  obtain ⟨c, more, hn, hdigit⟩ := Config.Json.exists_toDigits n
  rw [hn, List.cons_append] at hscalar ⊢
  unfold value?
  split
  next heq => cases heq; exact absurd hdigit (by decide)
  next heq => cases heq; exact absurd hdigit (by decide)
  next heq => cases heq; exact absurd hdigit (by decide)
  next heq => cases heq; exact absurd hdigit (by decide)
  next => exact hscalar

end numbers

section words

/-- A character that stands for itself between quotes. -/
def Plain (c : Char) : Prop := isText c = true ∧ c ≠ '"' ∧ c ≠ '\\'

theorem plain_of_all (h : cs.all fun c => isText c && c != '"' && c != '\\') : ∀ c ∈ cs, Plain c := by
  intro c hc
  have hplain := List.all_eq_true.mp h c hc
  simp only [Bool.and_eq_true, bne_iff_ne] at hplain
  exact ⟨hplain.1.1, hplain.1.2, hplain.2⟩

theorem basicBody_cons {n : Nat} (h : Plain c) :
    basicBody (n + 1) (c :: cs) = (basicBody n cs).map fun (body, rest) => (c :: body, rest) := by
  obtain ⟨htext, hquote, hslash⟩ := h
  rw [basicBody.eq_def]
  split
  next heq => cases heq
  next heq => cases heq
  next heq => exact absurd (List.cons.inj heq).1 hquote
  next heq => exact absurd (List.cons.inj heq).1 hslash
  next hn heq =>
    obtain ⟨rfl, rfl⟩ := List.cons.inj heq
    cases hn
    rw [if_pos htext]
    cases basicBody n cs <;> rfl

theorem basicBody_plain {n : Nat} (h : ∀ c ∈ cs, Plain c) (hn : cs.length < n) :
    basicBody n (cs ++ '"' :: rest) = some (cs, rest) := by
  induction cs generalizing n with
  | nil =>
    cases n with
    | zero => exact absurd hn (Nat.lt_irrefl 0)
    | succ n => rw [List.nil_append, basicBody]
  | cons c cs ih =>
    cases n with
    | zero => exact absurd hn (Nat.not_lt_zero _)
    | succ n =>
      have hbody := ih (fun c hc => h c (List.mem_cons_of_mem _ hc)) (Nat.lt_of_succ_lt_succ hn)
      rw [List.cons_append, basicBody_cons (h c List.mem_cons_self), hbody, Option.map_some]

/-- The word must not be empty, as three quotes begin a multi-line string. -/
theorem string?_quoted {word : String} (h : ∀ c ∈ word.toList, Plain c) (hne : word.toList ≠ []) :
    string? ('"' :: (word.toList ++ '"' :: rest)) = some (word, rest) := by
  obtain ⟨c, more, hword⟩ := List.exists_cons_of_ne_nil hne
  have hbody : basicBody ((word.toList ++ '"' :: rest).length + 1) (word.toList ++ '"' :: rest) =
      some (word.toList, rest) :=
    basicBody_plain h (by simp only [List.length_append]; omega)
  have hquote : c ≠ '"' := (h c (hword ▸ List.mem_cons_self)).2.1
  unfold string?
  split
  next heq =>
    rw [hword] at heq
    exact absurd (List.cons.inj (List.cons.inj heq).2).1 hquote
  next heq => cases heq
  next heq =>
    cases heq
    rw [hbody, Option.map_some]
    simp only [String.ofList_toList]
  next heq => cases heq
  next hno _ => exact absurd rfl (hno _)

theorem value?_quoted {word : String} (h : ∀ c ∈ word.toList, Plain c) (hne : word.toList ≠ [])
    (depth : Nat) :
    value? (depth + 1) ('"' :: (word.toList ++ '"' :: rest)) = some (.string word, rest) := by
  rw [value?, string?_quoted h hne]
  · rfl

end words

section lines

structure Line where
  key : String
  text : Chars
  value : Value

namespace Line

variable {l : Line} {d : Draft}

/-- The key is bare, and its value is read up to the end of the line. -/
structure Sound (l : Line) : Prop where
  named : l.key.toList ≠ []
  bare : ∀ c ∈ l.key.toList, isBare c = true
  starts : ∃ c more, l.text = c :: more ∧ isBlank c = false
  read : ∀ depth rest, value? (depth + 1) (l.text ++ '\n' :: rest) = some (l.value, '\n' :: rest)

def chars (l : Line) : Chars := l.key.toList ++ ' ' :: '=' :: ' ' :: (l.text ++ ['\n'])

def entry (l : Line) : String × Value := (l.key, l.value)

theorem chars_append (l : Line) :
    l.chars ++ rest = l.key.toList ++ ' ' :: '=' :: ' ' :: (l.text ++ '\n' :: rest) := by
  simp [chars]

end Line

theorem skip_cons_of_not_isBlank (h : isBlank c = false) : skip (c :: cs) = c :: cs :=
  List.dropWhile_cons_of_neg (by simp [h])

theorem isBlank_of_isBare (h : isBare c = true) : isBlank c = false := by
  rw [← Bool.not_eq_true]
  intro hc
  simp only [isBlank, Bool.or_eq_true, decide_eq_true_eq] at hc
  rcases hc with rfl | rfl <;> exact absurd h (by decide)

theorem ne_of_isBare {mark : Char} (h : isBare c = true) (hmark : isBare mark = false) : c ≠ mark := by
  rintro rfl
  rw [hmark] at h
  cases h

theorem keyPart_bare {key : String} (hnamed : key.toList ≠ []) (hbare : ∀ c ∈ key.toList, isBare c = true)
    (hends : isBare c = false) :
    keyPart (key.toList ++ c :: rest) = some (key, c :: rest) := by
  have htake : (key.toList ++ c :: rest).takeWhile isBare = key.toList := by
    rw [List.takeWhile_append_of_pos hbare, List.takeWhile_cons_of_neg (by simp [hends]), List.append_nil]
  have hdrop : (key.toList ++ c :: rest).dropWhile isBare = c :: rest := by
    rw [List.dropWhile_append_of_pos hbare, List.dropWhile_cons_of_neg (by simp [hends])]
  obtain ⟨first, more, hkey⟩ := List.exists_cons_of_ne_nil hnamed
  have hfirst : isBare first = true := hbare first (hkey ▸ List.mem_cons_self)
  unfold keyPart
  split
  next heq =>
    rw [hkey] at heq
    exact absurd (List.cons.inj heq).1 (ne_of_isBare hfirst (by decide))
  next heq =>
    rw [hkey] at heq
    exact absurd (List.cons.inj heq).1 (ne_of_isBare hfirst (by decide))
  next => rw [htake, hdrop, String.ofList_toList, if_neg (by simpa using hnamed)]

theorem key?_bare {key : String} (hnamed : key.toList ≠ []) (hbare : ∀ c ∈ key.toList, isBare c = true)
    (n : Nat) :
    key? (n + 1) (key.toList ++ ' ' :: '=' :: rest) = some ([], key, '=' :: rest) := by
  obtain ⟨first, more, hkey⟩ := List.exists_cons_of_ne_nil hnamed
  have hfirst : isBare first = true := hbare first (hkey ▸ List.mem_cons_self)
  have hskip : skip (key.toList ++ ' ' :: '=' :: rest) = key.toList ++ ' ' :: '=' :: rest := by
    rw [hkey, List.cons_append, skip_cons_of_not_isBlank (isBlank_of_isBare hfirst)]
  rw [key?, hskip, keyPart_bare hnamed hbare (by decide)]
  rfl

theorem insert_new {t : Entries} {key : String} (h : t.has key = false) (v : Value) :
    Entries.add false t [] key v = some (t ++ [(key, v)]) := by
  simp [Entries.add, Entries.insert, h]

theorem pair?_chars {l : Line} {d : Draft} (h : l.Sound) (hnew : d.current.has l.key = false) :
    pair? d (l.chars ++ rest) = some ({ d with current := d.current ++ [l.entry] }, rest) := by
  obtain ⟨c, more, htext, hblank⟩ := h.starts
  have hskip : skip (' ' :: (l.text ++ '\n' :: rest)) = l.text ++ '\n' :: rest := by
    rw [htext]
    exact skip_cons_of_not_isBlank hblank
  have hadd : d.add [] l.key l.value = some { d with current := d.current ++ [l.entry] } := by
    rw [Draft.add, insert_new hnew, Option.map_some]
    rfl
  rw [l.chars_append, pair?, key?_bare h.named h.bare]
  simp only [bind, Option.bind, hskip, h.read, hadd]
  rfl

theorem line?_chars {l : Line} {d : Draft} (h : l.Sound) (hnew : d.current.has l.key = false) :
    line? d (l.chars ++ rest) = some ({ d with current := d.current ++ [l.entry] }, rest) := by
  have hpair : pair? d (l.chars ++ rest) = some _ := pair?_chars h hnew
  obtain ⟨first, more, hkey⟩ := List.exists_cons_of_ne_nil h.named
  have hfirst : isBare first = true := h.bare first (hkey ▸ List.mem_cons_self)
  obtain ⟨after, hafter⟩ : ∃ after, l.chars ++ rest = first :: after := by
    rw [l.chars_append, hkey]
    exact ⟨_, rfl⟩
  rw [hafter] at hpair ⊢
  rw [line?, skip_cons_of_not_isBlank (isBlank_of_isBare hfirst)]
  dsimp only
  rw [if_neg (ne_of_isBare hfirst (by decide)), if_neg, hpair]
  rintro (hc | hc | hc) <;> exact ne_of_isBare hfirst (by decide) hc

theorem has_append_singleton {t : Entries} {key key' : String} {v : Value} (h : key ≠ key') :
    Entries.has (t ++ [(key, v)]) key' = t.has key' := by
  have hlookup : List.lookup key' [(key, v)] = none := by
    have hkey : (key' == key) = false := by simpa using h.symm
    rw [List.lookup_cons, hkey]
    rfl
  simp [Entries.has, List.lookup_append, hlookup]

theorem lines?_flatMap {ls : List Line} {d : Draft} {n : Nat} (hs : ∀ l ∈ ls, l.Sound)
    (hnodup : (ls.map Line.key).Nodup) (hnew : ∀ l ∈ ls, d.current.has l.key = false)
    (hn : ls.length ≤ n) :
    lines? n d (ls.flatMap Line.chars) = some { d with current := d.current ++ ls.map Line.entry } := by
  induction ls generalizing d n with
  | nil => simp [lines?]
  | cons l ls ih =>
    obtain ⟨hl, hnodup⟩ := List.nodup_cons.mp hnodup
    obtain ⟨hsound, hs⟩ := List.forall_mem_cons.mp hs
    obtain ⟨hfirst, hnew⟩ := List.forall_mem_cons.mp hnew
    have hnext : ∀ l' ∈ ls, Entries.has (d.current ++ [l.entry]) l'.key = false := fun l' hl' => by
      have hne : l.key ≠ l'.key := fun heq => hl (heq ▸ List.mem_map_of_mem hl')
      rw [Line.entry, has_append_singleton hne]
      exact hnew l' hl'
    have hline : line? d (l.chars ++ ls.flatMap Line.chars) = some _ := line?_chars hsound hfirst
    obtain ⟨n, rfl⟩ : ∃ m, n = m + 1 := Nat.exists_eq_add_one.mpr (Nat.lt_of_lt_of_le (Nat.succ_pos _) hn)
    have hmore := ih (d := { d with current := d.current ++ [l.entry] }) hs hnodup hnext
      (Nat.le_of_succ_le_succ hn)
    have hne : l.chars ++ ls.flatMap Line.chars ≠ [] :=
      List.append_ne_nil_of_left_ne_nil (List.append_ne_nil_of_left_ne_nil hsound.named _) _
    rw [List.flatMap_cons, lines?.eq_3 _ _ _ hne]
    simp [hline, hmore]

theorem length_le_flatMap {ls : List Line} (hs : ∀ l ∈ ls, l.Sound) :
    ls.length ≤ (ls.flatMap Line.chars).length := by
  induction ls with
  | nil => exact Nat.le_refl 0
  | cons l ls ih =>
    obtain ⟨hsound, hs⟩ := List.forall_mem_cons.mp hs
    have hpos : 0 < l.key.toList.length := List.length_pos_iff.mpr hsound.named
    have hmore := ih hs
    simp only [List.length_cons, List.flatMap_cons, List.length_append, Line.chars]
    omega

theorem parse?_lines {ls : List Line} (hs : ∀ l ∈ ls, l.Sound) (hnodup : (ls.map Line.key).Nodup) :
    parse? (String.ofList (ls.flatMap Line.chars)) = some (ls.map Line.entry) := by
  have hmark : dropMark (ls.flatMap Line.chars) = ls.flatMap Line.chars := by
    cases ls with
    | nil => rfl
    | cons l ls =>
      have hsound := hs l List.mem_cons_self
      obtain ⟨first, more, hkey⟩ := List.exists_cons_of_ne_nil hsound.named
      have hfirst : isBare first = true := hsound.bare first (hkey ▸ List.mem_cons_self)
      rw [List.flatMap_cons, Line.chars, hkey]
      unfold dropMark
      split
      next heq => exact absurd (List.cons.inj heq).1 (ne_of_isBare hfirst (by decide))
      next => rfl
  have hlines := lines?_flatMap (d := {}) (n := (ls.flatMap Line.chars).length) hs hnodup
    (fun l _ => rfl) (length_le_flatMap hs)
  rw [parse?, String.toList_ofList, hmark, hlines]
  simp [Draft.finish]

end lines

end Replay.Toml
