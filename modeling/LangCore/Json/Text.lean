import LangCore.Json.Basic

/-!
# Compact JSON text

No blank is written between the parts of a value. In strings only quotes,
backslashes and the characters below the space are escaped, by their short form
where there is one.
-/

namespace LangCore.Json

/-- The escape of a character below the space that has no short form. -/
def controlEscape (c : Char) : List Char :=
  ['\\', 'u', '0', '0', Nat.digitChar (c.toNat / 16), Nat.digitChar (c.toNat % 16)]

/-- The characters that stand for one character of a string. -/
def stringChar (c : Char) : List Char :=
  if c = '"' then ['\\', '"']
  else if c = '\\' then ['\\', '\\']
  else if c = '\n' then ['\\', 'n']
  else if c = '\r' then ['\\', 'r']
  else if c = '\t' then ['\\', 't']
  else if c = '\x08' then ['\\', 'b']
  else if c = '\x0c' then ['\\', 'f']
  else if c.toNat < 32 then controlEscape c
  else [c]

def stringText (s : String) : String :=
  String.ofList ('"' :: s.toList.flatMap stringChar ++ ['"'])

@[simp] theorem toList_stringText (s : String) :
    (stringText s).toList = '"' :: s.toList.flatMap stringChar ++ ['"'] := by
  simp [stringText]

/-- A decimal with its point in front of the last `places` digits. -/
def decimalText (mantissa : Int) (places : Nat) : String :=
  let digits := toString mantissa.natAbs
  let padded := "".pushn '0' (places + 1 - digits.length) ++ digits
  let whole := padded.toList.take (padded.length - places)
  let part := padded.toList.drop (padded.length - places)
  (if mantissa < 0 then "-" else "") ++ String.ofList whole ++
    (if places = 0 then "" else "." ++ String.ofList part)

mutual

def text : Json → String
  | .null => "null"
  | .bool b => if b then "true" else "false"
  | .number mantissa places =>
    if places = 0 then toString mantissa else decimalText mantissa places
  | .string s => stringText s
  | .array items => "[" ++ ",".intercalate (itemTexts items) ++ "]"
  | .object entries => "\x7b" ++ ",".intercalate (entryTexts entries) ++ "\x7d"

def itemTexts : List Json → List String
  | [] => []
  | item :: rest => item.text :: itemTexts rest

def entryTexts : List (String × Json) → List String
  | [] => []
  | (name, value) :: rest => (stringText name ++ ":" ++ value.text) :: entryTexts rest

end

end LangCore.Json
