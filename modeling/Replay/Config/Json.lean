import Replay.Config.Fields

/-!
A configuration as JSON. It is written as an object of its four fields, and read from an object or an
array. Reading stops at the first fault.
-/
namespace Replay.Config.Json

abbrev Chars := List Char

def isBlank (c : Char) : Bool := c = ' ' || c = '\t' || c = '\n' || c = '\r'

def skip (cs : Chars) : Chars := cs.dropWhile isBlank

def hexDigit? (c : Char) : Option Nat :=
  if '0' ≤ c ∧ c ≤ '9' then some (c.toNat - 48)
  else if 'a' ≤ c ∧ c ≤ 'f' then some (c.toNat - 87)
  else if 'A' ≤ c ∧ c ≤ 'F' then some (c.toNat - 55)
  else none

def hexValue? (cs : Chars) : Option Nat :=
  cs.foldlM (fun n c => (hexDigit? c).map (16 * n + ·)) 0

def escaped? : Char → Option Char
  | '"' => some '"'
  | '\\' => some '\\'
  | '/' => some '/'
  | 'b' => some '\x08'
  | 'f' => some '\x0c'
  | 'n' => some '\n'
  | 'r' => some '\r'
  | 't' => some '\t'
  | _ => none

/-- A surrogate, the first or the second of a pair. -/
def isLeading (n : Nat) : Bool := decide (0xD800 ≤ n ∧ n < 0xDC00)

def isTrailing (n : Nat) : Bool := decide (0xDC00 ≤ n ∧ n < 0xE000)

/-- The rest of a string after its opening quote, and what follows it. -/
def stringBody : Chars → Option (Chars × Chars)
  | [] => none
  | '"' :: rest => some ([], rest)
  | '\\' :: 'u' :: a :: b :: c :: d :: rest => do
    let n ← hexValue? [a, b, c, d]
    if isTrailing n then none
    else if isLeading n then
      match rest with
      | '\\' :: 'u' :: e :: f :: g :: h :: rest =>
        let m ← hexValue? [e, f, g, h]
        if isTrailing m then
          let (body, rest) ← stringBody rest
          some (Char.ofNat (0x10000 + (n - 0xD800) * 0x400 + (m - 0xDC00)) :: body, rest)
        else none
      | _ => none
    else
      let (body, rest) ← stringBody rest
      some (Char.ofNat n :: body, rest)
  | '\\' :: c :: rest => do
    let e ← escaped? c
    let (body, rest) ← stringBody rest
    some (e :: body, rest)
  | c :: rest =>
    if c = '\\' ∨ c < ' ' then none
    else do
      let (body, rest) ← stringBody rest
      some (c :: body, rest)

def malformed {α : Type} : Except Fault α := .error .malformed

def string (cs : Chars) : Except Fault (String × Chars) :=
  match skip cs with
  | '"' :: rest =>
    match stringBody rest with
    | some (body, rest) => .ok (String.ofList body, rest)
    | none => malformed
  | _ => malformed

/-- An unsigned integer, without fraction or exponent. -/
def natural (cs : Chars) : Except Fault (Nat × Chars) :=
  let digits := cs.takeWhile Char.isDigit
  let rest := cs.dropWhile Char.isDigit
  if digits = [] ∨ (digits.head? = some '0' ∧ digits ≠ ['0']) then malformed
  else if rest.head? = some '.' ∨ rest.head? = some 'e' ∨ rest.head? = some 'E' then malformed
  else .ok (Nat.ofDigitChars 10 digits 0, rest)

def size (cs : Chars) : Except Fault (Nat × Chars) := do
  let (n, rest) ← natural (skip cs)
  if n ≤ maxSize then .ok (n, rest) else malformed

/-- A signed 64-bit number or a word. Minus zero is not an integer. -/
def limit (cs : Chars) : Except Fault (Limit × Chars) :=
  match skip cs with
  | '"' :: _ => do
    let (word, rest) ← string cs
    return (← limitOfWord word, rest)
  | '-' :: cs => do
    let (n, rest) ← natural cs
    if n = 0 ∨ -n < Int64.minValue.toInt then malformed else return (← limitOfInt (-n), rest)
  | cs => do
    let (n, rest) ← natural cs
    if Int64.maxValue.toInt < n then malformed else return (← limitOfInt n, rest)

def ownershipOf (word : String) (rest : Chars) : Except Fault (Ownership × Chars) :=
  match ownershipOfWord? word with
  | some o => .ok (o, rest)
  | none => malformed

/-- A word, or an object with that word as its only key and the value null. -/
def ownership (cs : Chars) : Except Fault (Ownership × Chars) :=
  match skip cs with
  | '{' :: cs => do
    let (word, rest) ← string cs
    let (o, rest) ← ownershipOf word rest
    match skip rest with
    | ':' :: rest =>
      match skip rest with
      | 'n' :: 'u' :: 'l' :: 'l' :: rest =>
        match skip rest with
        | '}' :: rest => return (o, rest)
        | _ => malformed
      | _ => malformed
    | _ => malformed
  | cs => do
    let (word, rest) ← string cs
    ownershipOf word rest

def field (f : Field) (d : Draft) (cs : Chars) : Except Fault (Draft × Chars) :=
  match f with
  | .initial => do
    let (n, rest) ← size cs
    return ({ d with initial := some n }, rest)
  | .increment => do
    let (n, rest) ← size cs
    return ({ d with increment := some n }, rest)
  | .limit => do
    let (l, rest) ← limit cs
    return ({ d with limit := some l }, rest)
  | .ownership => do
    let (o, rest) ← ownership cs
    return ({ d with ownership := some o }, rest)

def member (d : Draft) (cs : Chars) : Except Fault (Draft × Chars) := do
  let (key, rest) ← string cs
  match Field.ofKey? key with
  | none => malformed
  | some f =>
    if d.has f then malformed
    else match skip rest with
      | ':' :: rest => field f d rest
      | _ => malformed

/-- The members of an object from the second on, at most `more`. -/
def members : (more : Nat) → Draft → Chars → Except Fault (Draft × Chars)
  | more, d, cs =>
    match skip cs with
    | '}' :: rest => .ok (d, rest)
    | ',' :: rest =>
      match more with
      | 0 => malformed
      | more + 1 => do
        let (d, rest) ← member d rest
        members more d rest
    | _ => malformed

def object (cs : Chars) : Except Fault (Draft × Chars) :=
  match skip cs with
  | '}' :: rest => .ok ({}, rest)
  | cs => do
    let (d, rest) ← member {} cs
    members 3 d rest

/-- The elements of an array from the second on. -/
def elements : List Field → Draft → Chars → Except Fault (Draft × Chars)
  | fields, d, cs =>
    match skip cs with
    | ']' :: rest => .ok (d, rest)
    | ',' :: rest =>
      match fields with
      | [] => malformed
      | f :: fields => do
        let (d, rest) ← field f d rest
        elements fields d rest
    | _ => malformed

def array (cs : Chars) : Except Fault (Draft × Chars) :=
  match skip cs with
  | ']' :: rest => .ok ({}, rest)
  | cs => do
    let (d, rest) ← field .initial {} cs
    elements [.increment, .limit, .ownership] d rest

def document (cs : Chars) : Except Fault Config := do
  let (d, rest) ← match skip cs with
    | '{' :: cs => object cs
    | '[' :: cs => array cs
    | _ => malformed
  if skip rest = [] then return d.config else .error .malformed

end Replay.Config.Json

namespace Replay.Config

def ofJson (text : String) : Except Fault Config := Json.document text.toList

def limitJson : Limit → String
  | .unbounded => "\"unbounded\""
  | .limited count _ => toString count

def json (c : Config) : String :=
  s!"\x7b\"{Field.initial.name}\":{c.initial},\"{Field.increment.name}\":{c.increment}," ++
  s!"\"{Field.limit.name}\":{limitJson c.limit}," ++
  s!"\"{Field.ownership.name}\":\"{ownershipWord c.ownership}\"\x7d"

end Replay.Config
