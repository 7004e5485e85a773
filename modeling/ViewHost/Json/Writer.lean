import ViewHost.Json.Basic

/-!
# Writing JSON

Values are written without blanks. Numbers with a fraction or an exponent are
written in place from a millionth up to below ten trillion and with a signed
exponent elsewhere.
-/

namespace ViewHost.Json

/-- The layout of numbers that are not written as whole numbers. -/
def numberLayout : Layout := ⟨some (-6), some 12, true, true⟩

def hexDigits (n : Nat) : String := String.ofList (Nat.toDigits 16 n)

/-- A character inside a string. -/
def escape (c : Char) : String :=
  match c with
  | '"' => "\\\""
  | '\\' => "\\\\"
  | '\x08' => "\\b"
  | '\x0c' => "\\f"
  | '\n' => "\\n"
  | '\r' => "\\r"
  | '\t' => "\\t"
  | c =>
    if c.toNat < 0x20 then
      let digits := hexDigits c.toNat
      "\\u" ++ String.ofList (List.replicate (4 - digits.length) '0') ++ digits
    else String.singleton c

def quote (s : String) : String := "\"" ++ String.join (s.toList.map escape) ++ "\""

mutual

/-- The text of a value. -/
def write : Json → String
  | .null => "null"
  | .bool true => "true"
  | .bool false => "false"
  | .num (.whole negative n) => (if negative then "-" else "") ++ toString n
  | .num (.decimal d) => d.text numberLayout
  | .str s => quote (s.getD "")
  | .arr items => "[" ++ ",".intercalate (writeItems items) ++ "]"
  | .obj members => "\x7b" ++ ",".intercalate (writeMembers members) ++ "\x7d"

def writeItems : List Json → List String
  | [] => []
  | j :: rest => write j :: writeItems rest

def writeMembers : List (Option String × Json) → List String
  | [] => []
  | (k, j) :: rest => (quote (k.getD "") ++ ":" ++ write j) :: writeMembers rest

end

end ViewHost.Json
