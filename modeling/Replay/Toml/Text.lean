import Replay.Toml.Value

/-!
The tokens of a TOML document: blanks and comments, keys, strings, numbers, dates and times.
-/
namespace Replay.Toml

abbrev Chars := List Char

def isBlank (c : Char) : Bool := c = ' ' || c = '\t'

def skip (cs : Chars) : Chars := cs.dropWhile isBlank

/-- A character allowed in comments and, quotes excepted, in strings. -/
def isText (c : Char) : Bool := c = '\t' || (decide (' ' ≤ c) && c != '\x7f')

/-- The rest after a newline; the end of the text ends a line as well. -/
def newline? : Chars → Option Chars
  | [] => some []
  | '\n' :: rest => some rest
  | '\r' :: '\n' :: rest => some rest
  | _ => none

/-- The rest after the blanks and the comment that end a line. -/
def lineEnd? (cs : Chars) : Option Chars :=
  match skip cs with
  | '#' :: rest => newline? (rest.dropWhile isText)
  | rest => newline? rest

def digitIn? (base : Nat) (c : Char) : Option Nat :=
  let n :=
    if '0' ≤ c ∧ c ≤ '9' then c.toNat - 48
    else if 'a' ≤ c ∧ c ≤ 'f' then c.toNat - 87
    else if 'A' ≤ c ∧ c ≤ 'F' then c.toNat - 55
    else base
  if n < base then some n else none

def valueIn (base : Nat) (cs : Chars) : Option Nat :=
  cs.foldlM (fun n c => (digitIn? base c).map (base * n + ·)) 0

/-- The character of a code point; surrogates have none. -/
def scalar? (n : Nat) : Option Char :=
  if n < 0xD800 ∨ (0xE000 ≤ n ∧ n < 0x110000) then some (Char.ofNat n) else none

def escaped? : Char → Option Char
  | 'b' => some '\x08'
  | 't' => some '\t'
  | 'n' => some '\n'
  | 'f' => some '\x0c'
  | 'r' => some '\r'
  | '"' => some '"'
  | '\\' => some '\\'
  | _ => none

def escape? : Chars → Option (Char × Chars)
  | 'u' :: a :: b :: c :: d :: rest => do
    return (← scalar? (← valueIn 16 [a, b, c, d]), rest)
  | 'U' :: a :: b :: c :: d :: e :: f :: g :: h :: rest => do
    return (← scalar? (← valueIn 16 [a, b, c, d, e, f, g, h]), rest)
  | c :: rest => (escaped? c).map fun e => (e, rest)
  | [] => none

/-- The rest of a single-line string after its opening quote. -/
def basicBody : (length : Nat) → Chars → Option (Chars × Chars)
  | 0, _ => none
  | _ + 1, [] => none
  | _ + 1, '"' :: rest => some ([], rest)
  | n + 1, '\\' :: rest => do
    let (c, rest) ← escape? rest
    let (body, rest) ← basicBody n rest
    return (c :: body, rest)
  | n + 1, c :: rest =>
    if isText c then do
      let (body, rest) ← basicBody n rest
      return (c :: body, rest)
    else none

/-- A literal string has no escapes. -/
def literalBody (cs : Chars) : Option (Chars × Chars) :=
  match cs.dropWhile fun c => isText c && c != '\'' with
  | '\'' :: rest => some (cs.takeWhile fun c => isText c && c != '\'', rest)
  | _ => none

/-- Up to five quotes close a multi-line string; all but the last three belong to it. -/
def closing? (quote : Char) (cs : Chars) : Option (Chars × Chars) :=
  let quotes := cs.takeWhile (· = quote)
  if 3 ≤ quotes.length ∧ quotes.length ≤ 5 then
    some (quotes.drop 3, cs.dropWhile (· = quote))
  else none

def joins? (cs : Chars) : Option Chars :=
  match skip cs with
  | '\n' :: rest => some rest
  | '\r' :: '\n' :: rest => some rest
  | _ => none

/-- Skips blanks and newlines. -/
def skipLines : (length : Nat) → Chars → Chars
  | 0, cs => cs
  | n + 1, '\n' :: rest => skipLines n rest
  | n + 1, '\r' :: '\n' :: rest => skipLines n rest
  | n + 1, c :: rest => if isBlank c then skipLines n rest else c :: rest
  | _ + 1, [] => []

/-- The rest of a multi-line string after its opening quotes. -/
def linesBody (escapes : Bool) (quote : Char) : (length : Nat) → Chars → Option (Chars × Chars)
  | 0, _ => none
  | _ + 1, [] => none
  | n + 1, '\n' :: rest =>
    (linesBody escapes quote n rest).map fun (body, rest) => ('\n' :: body, rest)
  | n + 1, '\r' :: '\n' :: rest =>
    (linesBody escapes quote n rest).map fun (body, rest) => ('\n' :: body, rest)
  | n + 1, c :: rest =>
    if c = quote ∧ rest.take 2 = [quote, quote] then closing? quote (c :: rest)
    else if escapes ∧ c = '\\' then
      match joins? rest with
      | some rest => linesBody escapes quote n (skipLines rest.length rest)
      | none =>
        match escape? rest with
        | some (e, rest) =>
          (linesBody escapes quote n rest).map fun (body, rest) => (e :: body, rest)
        | none => none
    else if isText c then
      (linesBody escapes quote n rest).map fun (body, rest) => (c :: body, rest)
    else none

/-- A newline right after the opening quotes is not part of the string. -/
def dropFirstNewline : Chars → Chars
  | '\n' :: rest => rest
  | '\r' :: '\n' :: rest => rest
  | cs => cs

def string? : Chars → Option (String × Chars)
  | '"' :: '"' :: '"' :: rest => do
    let (body, rest) ← linesBody true '"' (rest.length + 1) (dropFirstNewline rest)
    return (String.ofList body, rest)
  | '\'' :: '\'' :: '\'' :: rest => do
    let (body, rest) ← linesBody false '\'' (rest.length + 1) (dropFirstNewline rest)
    return (String.ofList body, rest)
  | '"' :: rest =>
    (basicBody (rest.length + 1) rest).map fun (body, rest) => (String.ofList body, rest)
  | '\'' :: rest => (literalBody rest).map fun (body, rest) => (String.ofList body, rest)
  | _ => none

def isBare (c : Char) : Bool := c.isAlphanum || c = '-' || c = '_'

/-- One part of a key, bare or quoted. -/
def keyPart : Chars → Option (String × Chars)
  | '"' :: rest =>
    (basicBody (rest.length + 1) rest).map fun (body, rest) => (String.ofList body, rest)
  | '\'' :: rest => (literalBody rest).map fun (body, rest) => (String.ofList body, rest)
  | cs =>
    if (cs.takeWhile isBare).isEmpty then none
    else some (String.ofList (cs.takeWhile isBare), cs.dropWhile isBare)

/-- A dotted key: the parts before the last, and the last. -/
def key? : (length : Nat) → Chars → Option (List String × String × Chars)
  | 0, _ => none
  | n + 1, cs => do
    let (part, rest) ← keyPart (skip cs)
    match skip rest with
    | '.' :: rest =>
      let (above, last, rest) ← key? n rest
      return (part :: above, last, rest)
    | rest => return ([], part, rest)

def digits? (base : Nat) : Chars → Option Chars
  | [] => none
  | [c] => (digitIn? base c).map fun _ => [c]
  | c :: '_' :: rest => do
    discard (digitIn? base c)
    return c :: (← digits? base rest)
  | c :: rest => do
    discard (digitIn? base c)
    return c :: (← digits? base rest)

/-- A decimal number without leading zeros. -/
def decimal? (cs : Chars) : Option Nat := do
  let ds ← digits? 10 cs
  if ds.head? = some '0' ∧ ds ≠ ['0'] then none else valueIn 10 ds

def unsigned? : Chars → Bool × Chars
  | '+' :: rest => (false, rest)
  | '-' :: rest => (true, rest)
  | cs => (false, cs)

def integer? (cs : Chars) : Option Int := do
  let n : Int ← match cs with
    | '0' :: 'x' :: rest => ((digits? 16 rest).bind (valueIn 16)).map Int.ofNat
    | '0' :: 'o' :: rest => ((digits? 8 rest).bind (valueIn 8)).map Int.ofNat
    | '0' :: 'b' :: rest => ((digits? 2 rest).bind (valueIn 2)).map Int.ofNat
    | cs =>
      let (negative, cs) := unsigned? cs
      (decimal? cs).map fun n => if negative then -(n : Int) else n
  if Int64.minValue.toInt ≤ n ∧ n ≤ Int64.maxValue.toInt then some n else none

def isExponentMark (c : Char) : Bool := c = 'e' || c = 'E'

def isExponent : Chars → Bool
  | c :: cs => isExponentMark c && (digits? 10 (unsigned? cs).2).isSome
  | [] => false

/-- A float: a number with fraction or exponent, infinity, or not a number. -/
def isFloat (cs : Chars) : Bool :=
  let cs := (unsigned? cs).2
  if cs = ['i', 'n', 'f'] ∨ cs = ['n', 'a', 'n'] then true
  else
    let ends := fun c => c = '.' || isExponentMark c
    let whole := cs.takeWhile fun c => !ends c
    match cs.dropWhile fun c => !ends c with
    | '.' :: rest =>
      let fraction := rest.takeWhile fun c => !isExponentMark c
      let exponent := rest.dropWhile fun c => !isExponentMark c
      (decimal? whole).isSome && (digits? 10 fraction).isSome &&
        (exponent.isEmpty || isExponent exponent)
    | [] => false
    | exponent => (decimal? whole).isSome && isExponent exponent

def fixed? (count : Nat) (cs : Chars) : Option Nat :=
  if cs.length = count then valueIn 10 cs else none

def daysIn (year month : Nat) : Nat :=
  if month = 2 then
    if (year % 4 = 0 ∧ year % 100 ≠ 0) ∨ year % 400 = 0 then 29 else 28
  else if month = 4 ∨ month = 6 ∨ month = 9 ∨ month = 11 then 30
  else 31

def isDate (cs : Chars) : Bool :=
  match cs with
  | [a, b, c, d, '-', e, f, '-', g, h] =>
    match fixed? 4 [a, b, c, d], fixed? 2 [e, f], fixed? 2 [g, h] with
    | some year, some month, some day =>
      decide (1 ≤ month ∧ month ≤ 12 ∧ 1 ≤ day ∧ day ≤ daysIn year month)
    | _, _, _ => false
  | _ => false

def isClock (hour minute : Chars) : Bool :=
  match fixed? 2 hour, fixed? 2 minute with
  | some h, some m => decide (h < 24 ∧ m < 60)
  | _, _ => false

/-- A time of day; the second may be a leap second with a fraction. -/
def isTime (cs : Chars) : Bool :=
  match cs with
  | a :: b :: ':' :: c :: d :: ':' :: e :: f :: rest =>
    isClock [a, b] [c, d] && (fixed? 2 [e, f]).any (decide <| · ≤ 60) &&
      match rest with
      | [] => true
      | '.' :: fraction => !fraction.isEmpty && fraction.all Char.isDigit
      | _ => false
  | _ => false

def isOffset : Chars → Bool
  | ['Z'] | ['z'] => true
  | sign :: a :: b :: ':' :: c :: d :: [] => (sign = '+' || sign = '-') && isClock [a, b] [c, d]
  | _ => false

def isZonedTime (cs : Chars) : Bool :=
  let time := cs.takeWhile fun c => c.isDigit || c = ':' || c = '.'
  let offset := cs.dropWhile fun c => c.isDigit || c = ':' || c = '.'
  isTime time && (offset.isEmpty || isOffset offset)

def isMoment (cs : Chars) : Bool :=
  isDate cs || isTime cs ||
    (isDate (cs.take 10) && (cs[10]? = some 'T' || cs[10]? = some 't') && isZonedTime (cs.drop 11))

def isPlain (c : Char) : Bool := isBare c || c = '+' || c = '.' || c = ':'

/-- A value that is no string, array or table. A date may be followed by a time after one blank. -/
def scalarValue? (cs : Chars) : Option (Value × Chars) :=
  let word := cs.takeWhile isPlain
  let rest := cs.dropWhile isPlain
  if word = ['t', 'r', 'u', 'e'] then some (.boolean true, rest)
  else if word = ['f', 'a', 'l', 's', 'e'] then some (.boolean false, rest)
  else
    match integer? word with
    | some n => some (.integer n, rest)
    | none =>
      if isFloat word then some (.float, rest)
      else if isDate word then
        match rest with
        | ' ' :: more =>
          if more.head?.any Char.isDigit then
            if isZonedTime (more.takeWhile isPlain) then some (.moment, more.dropWhile isPlain)
            else none
          else some (.moment, rest)
        | _ => some (.moment, rest)
      else if isMoment word then some (.moment, rest)
      else none

end Replay.Toml
