/-!
# Double-precision numbers

A double is its 64 bits. Every finite double is a whole multiple of the least positive one, and
`units` is that multiple, so comparison and rounding are exact integer arithmetic. The infinities
have the multiple that follows the largest finite one.

`ofRatio` rounds a quotient to the nearest double, and a tie to the one whose last bit is zero.
-/

namespace ContentEngine

structure Double where
  bits : UInt64
deriving DecidableEq, Repr

namespace Double

def isNegative (x : Double) : Bool := 1 <<< 63 ≤ x.bits.toNat

def exponentField (x : Double) : Nat := x.bits.toNat >>> 52 % 2048

def fractionField (x : Double) : Nat := x.bits.toNat % (1 <<< 52)

def isNaN (x : Double) : Bool := x.exponentField = 2047 ∧ x.fractionField ≠ 0

def isFinite (x : Double) : Bool := x.exponentField ≠ 2047

/-- The magnitude in multiples of `2 ^ (-1074)`. -/
def magnitude (x : Double) : Nat :=
  if x.exponentField = 0 then x.fractionField
  else (1 <<< 52 + x.fractionField) <<< (x.exponentField - 1)

def units (x : Double) : Int := if x.isNegative then -x.magnitude else x.magnitude

/-- A comparison with a NaN has no answer; the two zeros are equal. -/
def compare? (x y : Double) : Option Ordering :=
  if x.isNaN || y.isNaN then none else some (compare x.units y.units)

def neg (x : Double) : Double := ⟨x.bits ^^^ 0x8000000000000000⟩

def zero : Double := ⟨0⟩

def negZero : Double := ⟨0x8000000000000000⟩

def infinity : Double := ⟨0x7ff0000000000000⟩

def nan : Double := ⟨0x7ff8000000000000⟩

/-! ## Rounding -/

/-- The whole number nearest to `num / den`, the even one of two at the same distance. -/
def roundDiv (num den : Nat) : Nat :=
  let q := num / den
  let r := num % den
  if den < 2 * r ∨ (2 * r = den ∧ q % 2 = 1) then q + 1 else q

/-- The double of magnitude `n` in multiples of `2 ^ (-1074)`, where `n` has at most 53 significant
bits. -/
def ofMagnitude (n : Nat) : Double :=
  if n < 1 <<< 52 then ⟨UInt64.ofNat n⟩
  else
    let shift := n.log2 - 52
    let bits := shift <<< 52 + n >>> shift
    if bits < 2047 <<< 52 then ⟨UInt64.ofNat bits⟩ else infinity

/-- The double nearest to the non-negative `num / den`. -/
def ofRatio (num den : Nat) : Double :=
  let scaled := num <<< 1074
  let shift := (scaled / den).log2 - 52
  ofMagnitude (roundDiv scaled (den <<< shift) <<< shift)

def ofNat (n : Nat) : Double := ofRatio n 1

def ofInt (i : Int) : Double := if i < 0 then (ofNat i.natAbs).neg else ofNat i.natAbs

/-- The rounded product of two finite non-negative doubles. -/
def mulNonneg (x y : Double) : Double := ofRatio (x.magnitude * y.magnitude) (1 <<< 2148)

/-- The rounded quotient of two finite non-negative doubles, the second of them not zero. -/
def divNonneg (x y : Double) : Double := ofRatio x.magnitude y.magnitude

end Double
end ContentEngine
