/-!
# Binary64 numbers

A number is its 64 bits: a sign, eleven bits of exponent and fifty-two bits of
fraction. Reading the fields keeps every law of these numbers within reach of
exact arithmetic on naturals and integers.
-/

namespace LangCore

/-- A double precision number, given by its bits. -/
structure Binary64 where
  bits : UInt64
  deriving DecidableEq

namespace Binary64

def isNegative (x : Binary64) : Bool :=
  x.bits >>> 63 == 1

/-- The biased exponent. -/
def exponentField (x : Binary64) : Nat :=
  (x.bits >>> 52 &&& 0x7ff).toNat

def fraction (x : Binary64) : Nat :=
  (x.bits &&& 0xfffffffffffff).toNat

/-- Whether the number is an infinity or not a number. -/
def isExceptional (x : Binary64) : Bool :=
  x.exponentField == 2047

def isNaN (x : Binary64) : Bool :=
  x.isExceptional && x.fraction != 0

def isFinite (x : Binary64) : Bool :=
  !x.isExceptional

def isZero (x : Binary64) : Bool :=
  x.exponentField == 0 && x.fraction == 0

/-- The integral significand of a finite number. -/
def significand (x : Binary64) : Nat :=
  if x.exponentField = 0 then x.fraction else 0x10000000000000 + x.fraction

/-- The power of two that scales the significand of a finite number. -/
def scale (x : Binary64) : Int :=
  if x.exponentField = 0 then -1074 else x.exponentField - 1075

/-- Whether the next smaller magnitude is only half as far away as the next larger one. -/
def isBinadeStart (x : Binary64) : Bool :=
  x.fraction == 0 && decide (1 < x.exponentField)

/-- The number with the opposite sign; this holds of zeros and of a NaN too. -/
def neg (x : Binary64) : Binary64 :=
  ⟨x.bits ^^^ 0x8000000000000000⟩

@[simp] theorem neg_neg (x : Binary64) : x.neg.neg = x := by
  rw [neg, neg, UInt64.xor_assoc, UInt64.xor_self, UInt64.xor_zero]

/-- Numeric equality: the two zeros are equal and a NaN equals nothing. -/
def equal (x y : Binary64) : Bool :=
  !x.isNaN && !y.isNaN && (x == y || (x.isZero && y.isZero))

theorem equal_self (x : Binary64) : x.equal x = !x.isNaN := by
  simp [equal]

theorem equal_comm (x y : Binary64) : x.equal y = y.equal x := by
  simp only [equal, Bool.and_comm, BEq.comm]

end Binary64
end LangCore
