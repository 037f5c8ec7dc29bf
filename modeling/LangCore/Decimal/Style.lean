import LangCore.Decimal.Shortest

/-!
# Styles of number text

Two styles write a binary64 number. The exact style keeps every number apart
from an integer and turns to an exponent for very small and very large
magnitudes; the plain style is always positional and writes integral numbers as
integers. Both show the sign of a zero and write every NaN alike.
-/

namespace LangCore

/-- How the digits of a number are laid out. -/
structure DecimalStyle where
  /-- Whether an integral number is written with `.0`. -/
  keepsPoint : Bool
  /-- The places of the point, counted from the first digit, between which no exponent is
  written; without bounds none is ever written. -/
  positional : Option (Int × Int)

namespace DecimalStyle

/-- From `0.0001` up to below `1e16` positional, otherwise with an exponent. -/
def exact : DecimalStyle := ⟨true, some (-3, 16)⟩

/-- Always positional, without `.0`. -/
def plain : DecimalStyle := ⟨false, none⟩

def isPositional (style : DecimalStyle) (point : Int) : Bool :=
  match style.positional with
  | none => true
  | some (low, high) => decide (low ≤ point) && decide (point ≤ high)

def zeros (n : Nat) : List Char :=
  List.replicate n '0'

/-- The digits with the point after the first `point` of them. -/
def positionalText (style : DecimalStyle) (digits : List Char) (point : Int) : List Char :=
  if point ≤ 0 then '0' :: '.' :: zeros (-point).toNat ++ digits
  else if digits.length ≤ point.toNat then
    digits ++ zeros (point.toNat - digits.length) ++ (if style.keepsPoint then ['.', '0'] else [])
  else digits.take point.toNat ++ '.' :: digits.drop point.toNat

/-- One digit, the others after a point, and the power of ten. -/
def exponentText (digits : List Char) (point : Int) : List Char :=
  let rest := digits.drop 1
  digits.take 1 ++ (if rest.isEmpty then [] else '.' :: rest) ++
    'e' :: (toString (point - 1)).toList

def decimalText (style : DecimalStyle) (d : Decimal) : List Char :=
  let digits := Nat.toDigits 10 d.digits
  let point := d.exponent + digits.length
  if style.isPositional point then style.positionalText digits point
  else exponentText digits point

/-- The text of a number without its sign. -/
def magnitudeText (style : DecimalStyle) (x : Binary64) : List Char :=
  if x.isExceptional then ['i', 'n', 'f']
  else if x.isZero then if style.keepsPoint then ['0', '.', '0'] else ['0']
  else style.decimalText (Decimal.shortest x)

def text (style : DecimalStyle) (x : Binary64) : String :=
  if x.isNaN then "NaN"
  else String.ofList ((if x.isNegative then ['-'] else []) ++ style.magnitudeText x)

end DecimalStyle

namespace Binary64

def exactText (x : Binary64) : String := DecimalStyle.exact.text x

def plainText (x : Binary64) : String := DecimalStyle.plain.text x

end Binary64
end LangCore
