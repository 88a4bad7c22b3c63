import Replay.Toml.Text

/-!
Reading a TOML document line by line: a key with its value, a table header, or nothing. Only the root
table is kept; a violation of the format makes the document invalid.
-/
namespace Replay.Toml

/-- Skips blanks, comments and newlines between the elements of an array. -/
def skipGaps : (length : Nat) → Chars → Chars
  | 0, cs => cs
  | n + 1, cs =>
    match skip cs with
    | [] => []
    | c :: rest =>
      if c = '\n' ∨ c = '\r' ∨ c = '#' then
        match lineEnd? (c :: rest) with
        | some rest => skipGaps n rest
        | none => c :: rest
      else c :: rest

mutual

/-- A value; `depth` bounds the nesting and the number of elements. -/
def value? : (depth : Nat) → Chars → Option (Value × Chars)
  | 0, _ => none
  | n + 1, cs =>
    match cs with
    | '"' :: _ | '\'' :: _ => (string? cs).map fun (s, rest) => (.string s, rest)
    | '[' :: rest => (elements? n rest).map fun (vs, rest) => (.array vs, rest)
    | '{' :: rest =>
      match skip rest with
      | '}' :: rest => some (.inline .explicit [], rest)
      | rest => (pairs? n [] rest).map fun (t, rest) => (.inline .explicit t, rest)
    | _ => scalarValue? cs

/-- The elements of an array up to the closing bracket, before which a comma may stand. -/
def elements? : (depth : Nat) → Chars → Option (List Value × Chars)
  | 0, _ => none
  | n + 1, cs =>
    match skipGaps cs.length cs with
    | ']' :: rest => some ([], rest)
    | cs => do
      let (v, rest) ← value? n cs
      match skipGaps rest.length rest with
      | ',' :: rest =>
        let (vs, rest) ← elements? n rest
        return (v :: vs, rest)
      | ']' :: rest => return ([v], rest)
      | _ => none

def pairs? : (depth : Nat) → Entries → Chars → Option (Entries × Chars)
  | 0, _, _ => none
  | n + 1, t, cs => do
    let (above, key, rest) ← key? (cs.length + 1) cs
    match rest with
    | '=' :: rest =>
      let (v, rest) ← value? n (skip rest)
      let t ← t.add true above key v
      match skip rest with
      | ',' :: rest => pairs? n t rest
      | '}' :: rest => return (t, rest)
      | _ => none
    | _ => none

end

def pair? (d : Draft) (cs : Chars) : Option (Draft × Chars) := do
  let (above, key, rest) ← key? (cs.length + 1) cs
  match rest with
  | '=' :: rest =>
    let (v, rest) ← value? (rest.length + 1) (skip rest)
    let rest ← lineEnd? rest
    return (← d.add above key v, rest)
  | _ => none

def header? (d : Draft) (cs : Chars) : Option (Draft × Chars) :=
  match cs with
  | '[' :: '[' :: rest => do
    let (above, key, rest) ← key? (rest.length + 1) rest
    match rest with
    | ']' :: ']' :: rest =>
      let rest ← lineEnd? rest
      return (← d.header above key true, rest)
    | _ => none
  | '[' :: rest => do
    let (above, key, rest) ← key? (rest.length + 1) rest
    match rest with
    | ']' :: rest =>
      let rest ← lineEnd? rest
      return (← d.header above key false, rest)
    | _ => none
  | _ => none

def line? (d : Draft) (cs : Chars) : Option (Draft × Chars) :=
  match skip cs with
  | [] => some (d, [])
  | c :: rest =>
    if c = '[' then header? d (c :: rest)
    else if c = '\n' ∨ c = '\r' ∨ c = '#' then (lineEnd? (c :: rest)).map fun rest => (d, rest)
    else pair? d (c :: rest)

def lines? : (length : Nat) → Draft → Chars → Option Draft
  | _, d, [] => some d
  | 0, _, _ :: _ => none
  | n + 1, d, cs => do
    let (d, rest) ← line? d cs
    lines? n d rest

/-- Skips a byte order mark. -/
def dropMark : Chars → Chars
  | '\uFEFF' :: rest => rest
  | cs => cs

def parse? (text : String) : Option Entries := do
  let cs := dropMark text.toList
  (← lines? cs.length {} cs).finish

end Replay.Toml
