import ViewHost.Input.Modifiers
import ViewHost.Json.Reader

/-!
# Modifiers as text

A set of modifiers is written as the names of its members, joined by bars. Bits
without a name follow as one hexadecimal number.
-/

namespace ViewHost.Wire

/-- Blanks of any script. -/
def isBlank (c : Char) : Bool :=
  let n := c.toNat
  (0x09 ≤ n && n ≤ 0x0d) || n == 0x20 || n == 0x85 || n == 0xa0 || n == 0x1680 ||
    (0x2000 ≤ n && n ≤ 0x200a) || n == 0x2028 || n == 0x2029 || n == 0x202f ||
    n == 0x205f || n == 0x3000

/-- The text without blanks around it. -/
def trim (cs : List Char) : List Char :=
  ((cs.dropWhile isBlank).reverse.dropWhile isBlank).reverse

/-- The parts between bars. -/
def splitBars : List Char → List (List Char)
  | [] => [[]]
  | '|' :: rest => [] :: splitBars rest
  | c :: rest =>
    match splitBars rest with
    | part :: parts => (c :: part) :: parts
    | [] => [[c]]

/-- A hexadecimal number of eight bits, with an optional plus sign. -/
def hexByte? (cs : List Char) : Option UInt8 := do
  let ds := if cs.head? = some '+' then cs.tail else cs
  if ds.isEmpty then none
  else
    let n := (← ds.mapM Json.hexValue?).foldl (fun n d => n * 16 + d) 0
    if n < 256 then some n.toUInt8 else none

/-- One part of the text: a name, or a number. -/
def modifier? (part : List Char) : Option Modifiers :=
  match part with
  | '0' :: 'x' :: digits => (hexByte? digits).map Modifiers.mk
  | _ => Modifiers.named.lookup (String.ofList part)

/-- The set that a text stands for. -/
def modifiersOfText? (s : String) : Option Modifiers := do
  let cs := trim s.toList
  if cs.isEmpty then some .none
  else
    let parts ← (splitBars cs).mapM fun part => modifier? (trim part)
    return parts.foldl Modifiers.union .none

/-- The text of a set. -/
def textOfModifiers (m : Modifiers) : String :=
  let names := (Modifiers.named.filter fun (_, f) => m.bits &&& f.bits == f.bits).map (·.1)
  let known := Modifiers.named.foldl (fun acc (_, f) => acc ||| f.bits) 0
  let rest := m.bits &&& (known ^^^ 0xff)
  let extra := if rest = 0 then [] else ["0x" ++ String.ofList (Nat.toDigits 16 rest.toNat)]
  " | ".intercalate (names ++ extra)

def modifiers? (j : Json) : Option Modifiers := j.str?.bind modifiersOfText?

def ofModifiers (m : Modifiers) : Json := .text (textOfModifiers m)

end ViewHost.Wire
