import LangCore.Decimal.Binary64

/-!
# Shortest decimals

The decimal of a finite number is the one with the fewest digits among those
that lie closer to it than to any other number, and among these the nearest.
All comparisons are exact: a magnitude `m * 2 ^ q` and a point `d * 10 ^ u` of a
decimal grid are scaled by a common factor to naturals.
-/

namespace LangCore

/-- The positive number `digits * 10 ^ exponent`. -/
structure Decimal where
  digits : Nat
  exponent : Int
  deriving DecidableEq

namespace Decimal

def digitCount (n : Nat) : Nat :=
  (Nat.toDigits 10 n).length

/-- The same number without zeros at its end. -/
def trim (d : Decimal) : Decimal :=
  if d.digits ≠ 0 ∧ d.digits % 10 = 0 then trim ⟨d.digits / 10, d.exponent + 1⟩ else d
termination_by d.digits
decreasing_by omega

/-- The numbers that are read as a given positive number, in units of a quarter of its last
place. Both ends belong to the range when `closed` holds. -/
structure Target where
  value : Nat
  low : Nat
  high : Nat
  scale : Int
  closed : Bool

/-- The target of a finite number other than zero. The range reaches halfway to each neighbour,
and an even significand owns the halfway points. -/
def Target.of (x : Binary64) : Target where
  value := 4 * x.significand
  low := 4 * x.significand - (if x.isBinadeStart then 1 else 2)
  high := 4 * x.significand + 2
  scale := x.scale - 2
  closed := x.significand % 2 == 0

namespace Target

/-- The factor of grid points in the scaled comparison with the grid `10 ^ u`. -/
def gridFactor (t : Target) (u : Int) : Nat :=
  Nat.pow 10 u.toNat * Nat.pow 2 (-t.scale).toNat

def unitFactor (t : Target) (u : Int) : Nat :=
  Nat.pow 2 t.scale.toNat * Nat.pow 10 (-u).toNat

/-- Whether `d * 10 ^ u` is read as the number. -/
def holds (t : Target) (u : Int) (d : Nat) : Bool :=
  let point := d * t.gridFactor u
  if t.closed then
    decide (t.low * t.unitFactor u ≤ point) && decide (point ≤ t.high * t.unitFactor u)
  else
    decide (t.low * t.unitFactor u < point) && decide (point < t.high * t.unitFactor u)

/-- The largest multiple of `10 ^ u` that is not above the number. -/
def floor (t : Target) (u : Int) : Nat :=
  t.value * t.unitFactor u / t.gridFactor u

/-- The point of the grid `10 ^ u` nearest to the number, if it is read as the number. Of two
equally near points the upper one is taken. -/
def onGrid (t : Target) (u : Int) : Option Decimal :=
  let below := t.floor u
  match t.holds u below, t.holds u (below + 1) with
  | false, false => none
  | true, false => some ⟨below, u⟩
  | false, true => some ⟨below + 1, u⟩
  | true, true =>
    if 2 * t.value * t.unitFactor u < (2 * below + 1) * t.gridFactor u then some ⟨below, u⟩
    else some ⟨below + 1, u⟩

/-- The exponent of the leading decimal digit. -/
def leadingExponent (t : Target) : Int :=
  let guess : Int := digitCount (t.value * t.unitFactor 0) - digitCount (t.gridFactor 0)
  if t.gridFactor guess ≤ t.value * t.unitFactor guess then guess else guess - 1

end Target

/-- The shortest decimal of a finite number other than zero. Seventeen digits always suffice. -/
def shortest (x : Binary64) : Decimal :=
  let target := Target.of x
  let top := target.leadingExponent
  match (List.range 17).findSome? fun n : Nat => target.onGrid (top - n) with
  | some d => d.trim
  | none => ⟨target.floor (top - 16), top - 16⟩

end Decimal
end LangCore
