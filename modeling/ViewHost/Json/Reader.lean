import ViewHost.Json.Basic

/-!
# Reading JSON

The reader takes one value and nothing behind it but blanks. It works on a list
of characters; every reader returns what is left behind the part it took. Each
nested reader is called with one unit less of a budget, for which the number of
characters is always enough, because no call is made without taking one.
-/

namespace ViewHost.Json

/-- A reader of a part of the text. -/
abbrev Reads (β : Type) := List Char → Option (β × List Char)

def isBlank (c : Char) : Bool := c == ' ' || c == '\n' || c == '\t' || c == '\r'

def skipBlanks (cs : List Char) : List Char := cs.dropWhile isBlank

/-- The value of a run of decimal digits. -/
def digitsValue (ds : List Char) : Nat :=
  ds.foldl (fun n c => n * 10 + (c.toNat - '0'.toNat)) 0

def hexValue? (c : Char) : Option Nat :=
  if c.isDigit then some (c.toNat - '0'.toNat)
  else if 'a' ≤ c && c ≤ 'f' then some (c.toNat - 'a'.toNat + 10)
  else if 'A' ≤ c && c ≤ 'F' then some (c.toNat - 'A'.toNat + 10)
  else none

/-- Four hexadecimal digits. -/
def hexUnit : Reads Nat
  | a :: b :: c :: d :: rest => do
    let units ← [a, b, c, d].mapM hexValue?
    return (units.foldl (fun n u => n * 16 + u) 0, rest)
  | _ => none

/-- The character that a letter behind a backslash stands for. -/
def escaped? : Char → Option Char
  | '"' => some '"'
  | '\\' => some '\\'
  | '/' => some '/'
  | 'b' => some '\x08'
  | 'f' => some '\x0c'
  | 'n' => some '\n'
  | 'r' => some '\r'
  | 't' => some '\t'
  | _ => none

/-- Puts a character in front of the text read behind it. -/
def extend (c : Option Char) (s : Option (List Char)) : Option (List Char) := do
  return (← c) :: (← s)

/-- The rest of a string, its opening quote being read already. -/
def stringRest : Nat → Reads (Option (List Char))
  | 0, _ => none
  | budget + 1, cs =>
    match cs with
    | [] => none
    | '"' :: rest => some (some [], rest)
    | '\\' :: 'u' :: rest => do
      let (unit, rest) ← hexUnit rest
      if 0xd800 ≤ unit && unit < 0xdc00 then
        -- the first half of a pair is worth something only before its second
        match rest with
        | '\\' :: 'u' :: behind =>
          let (low, behind) ← hexUnit behind
          if 0xdc00 ≤ low && low < 0xe000 then
            let (s, behind) ← stringRest budget behind
            let c := Char.ofNat (0x10000 + (unit - 0xd800) * 0x400 + (low - 0xdc00))
            return (extend (some c) s, behind)
          else
            let (_, behind) ← stringRest budget rest
            return (none, behind)
        | _ =>
          let (_, behind) ← stringRest budget rest
          return (none, behind)
      else
        let (s, rest) ← stringRest budget rest
        let c := if 0xdc00 ≤ unit && unit < 0xe000 then none else some (Char.ofNat unit)
        return (extend c s, rest)
    | '\\' :: c :: rest => do
      let c ← escaped? c
      let (s, rest) ← stringRest budget rest
      return (extend (some c) s, rest)
    | c :: rest =>
      if c.toNat < 0x20 || c == '\\' then none
      else do
        let (s, rest) ← stringRest budget rest
        return (extend (some c) s, rest)

/-- The digits in front of the text, at least one. -/
def digits1 : Reads (List Char) := fun cs =>
  let ds := cs.takeWhile Char.isDigit
  if ds.isEmpty then none else some (ds, cs.dropWhile Char.isDigit)

/-- The exponent of a number, if there is one. -/
def exponent? (cs : List Char) : Option (Option Int × List Char) :=
  match cs with
  | e :: rest =>
    if e == 'e' || e == 'E' then
      match rest with
      | '+' :: rest => do
        let (ds, rest) ← digits1 rest
        return (some (digitsValue ds : Int), rest)
      | '-' :: rest => do
        let (ds, rest) ← digits1 rest
        return (some (-(digitsValue ds : Int)), rest)
      | _ => do
        let (ds, rest) ← digits1 rest
        return (some (digitsValue ds : Int), rest)
    else some (none, cs)
  | [] => some (none, [])

/-- A number without its sign. No zero stands in front of other digits. -/
def unsigned (negative : Bool) : Reads Numeral := fun cs => do
  let (ds, rest) ← digits1 cs
  if ds.length > 1 && ds.head? == some '0' then none
  else
    let (fraction, rest) ←
      match rest with
      | '.' :: rest => (digits1 rest).map fun (fs, rest) => (some fs, rest)
      | _ => some (none, rest)
    let (exponent, rest) ← exponent? rest
    match fraction, exponent with
    | none, none => return (.whole negative (digitsValue ds), rest)
    | _, _ =>
      let fs := fraction.getD []
      let d : Decimal := ⟨negative, digitsValue (ds ++ fs), exponent.getD 0 - fs.length⟩
      return (.decimal d, rest)

def numeral : Reads Numeral
  | '-' :: rest => unsigned true rest
  | cs => unsigned false cs

/-- A word that is a value. -/
def word (w : String) (j : Json) : Reads Json := fun cs =>
  if w.toList.isPrefixOf cs then some (j, cs.drop w.length) else none

mutual

/-- A value, behind any blanks. -/
def value : Nat → Reads Json
  | 0, _ => none
  | budget + 1, cs =>
    match skipBlanks cs with
    | '"' :: rest => (stringRest (budget + 1) rest).map fun (s, rest) =>
      (.str (s.map String.ofList), rest)
    | '[' :: rest =>
      match skipBlanks rest with
      | ']' :: rest => some (.arr [], rest)
      | rest => (items budget rest).map fun (xs, rest) => (.arr xs, rest)
    | '\x7b' :: rest =>
      match skipBlanks rest with
      | '\x7d' :: rest => some (.obj [], rest)
      | rest => (members budget rest).map fun (ms, rest) => (.obj ms, rest)
    | 'n' :: rest => word "null" .null ('n' :: rest)
    | 't' :: rest => word "true" (.bool true) ('t' :: rest)
    | 'f' :: rest => word "false" (.bool false) ('f' :: rest)
    | rest => (numeral rest).map fun (n, rest) => (.num n, rest)

/-- The items of an array up to its closing bracket. -/
def items : Nat → Reads (List Json)
  | 0, _ => none
  | budget + 1, cs => do
    let (x, rest) ← value budget cs
    match skipBlanks rest with
    | ',' :: rest =>
      let (xs, rest) ← items budget rest
      return (x :: xs, rest)
    | ']' :: rest => return ([x], rest)
    | _ => none

/-- The members of an object up to its closing brace. -/
def members : Nat → Reads (List (Option String × Json))
  | 0, _ => none
  | budget + 1, cs =>
    match skipBlanks cs with
    | '"' :: rest => do
      let (key, rest) ← stringRest (budget + 1) rest
      match skipBlanks rest with
      | ':' :: rest =>
        let (x, rest) ← value budget rest
        let entry := (key.map String.ofList, x)
        match skipBlanks rest with
        | ',' :: rest =>
          let (ms, rest) ← members budget rest
          return (entry :: ms, rest)
        | '\x7d' :: rest => return ([entry], rest)
        | _ => none
      | _ => none
    | _ => none

end

/-- The value that a text consists of. -/
def read? (s : String) : Option Json := do
  let cs := s.toList
  let (j, rest) ← value (2 * cs.length + 2) cs
  if (skipBlanks rest).isEmpty then some j else none

end ViewHost.Json
