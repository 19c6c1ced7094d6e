/-!
# Double-precision numbers

A number of the script is a 64-bit binary floating point value, kept as its bit pattern: one sign
bit, eleven exponent bits and fifty-two fraction bits.  Keeping the bits makes equality of numbers
equality of patterns, so `-0` and `0` are different and a NaN is equal to itself.

`Double.ofInt` is the conversion of an integer, rounding to nearest and a half to even.
-/

namespace ScriptCompiler

/-- A 64-bit binary floating point number, by its bit pattern. -/
structure Double where
  bits : UInt64
deriving DecidableEq, Repr, Inhabited

namespace Double

/-- The positive zero. -/
def zero : Double := ⟨0⟩

/-- Whether the sign bit is set. -/
def isSignNegative (d : Double) : Bool :=
  Nat.pow 2 63 ≤ d.bits.toNat

/-- The pattern without its sign bit. -/
def magnitude (d : Double) : Nat :=
  d.bits.toNat % Nat.pow 2 63

/-- The eleven exponent bits. -/
def exponentField (d : Double) : Nat :=
  d.magnitude / Nat.pow 2 52

/-- The fifty-two fraction bits. -/
def fractionField (d : Double) : Nat :=
  d.magnitude % Nat.pow 2 52

/-- Whether the number is one of the two zeros. -/
def isZero (d : Double) : Bool :=
  d.magnitude == 0

/-- Whether the pattern is not a number. -/
def isNaN (d : Double) : Bool :=
  d.exponentField == 2047 && d.fractionField != 0

/-- Whether the number is one of the two infinities. -/
def isInfinite (d : Double) : Bool :=
  d.exponentField == 2047 && d.fractionField == 0

/-- The significand of a finite number: `magnitude = significand * 2 ^ (scale - 1074)`. -/
def significand (d : Double) : Nat :=
  if d.exponentField = 0 then d.fractionField else Nat.pow 2 52 + d.fractionField

/-- The power of two that a unit of the significand stands for, counted from `2 ^ -1074`. -/
def scale (d : Double) : Nat :=
  d.exponentField - 1

/-- Whether the significand is a power of two, so that the numbers below lie closer together than
those above.  The least normal number counts as one. -/
def isBinadeStart (d : Double) : Bool :=
  d.fractionField == 0 && d.exponentField != 0

/-- Quotient of `n` by `2 ^ shift`, rounded to nearest, a half to even. -/
def shiftRightToEven (n shift : Nat) : Nat :=
  let unit := Nat.pow 2 shift
  let quotient := n / unit
  let rest := n % unit
  let half := unit / 2
  if half < rest ∨ (rest = half ∧ 0 < shift ∧ quotient % 2 = 1) then quotient + 1 else quotient

/-- The pattern of a natural number below `2 ^ 1023`, rounded to nearest, a half to even.  The
carry of a rounding that reaches the next power of two moves into the exponent bits by itself. -/
def magnitudeOfNat (n : Nat) : Nat :=
  if n = 0 then 0
  else
    let top := n.log2
    let significand :=
      if top ≤ 52 then n * Nat.pow 2 (52 - top) else shiftRightToEven n (top - 52)
    (top + 1022) * Nat.pow 2 52 + significand

/-- The number nearest to an integer, a half to even. -/
def ofInt (i : Int) : Double :=
  if 0 ≤ i then ⟨UInt64.ofNat (magnitudeOfNat i.toNat)⟩
  else ⟨UInt64.ofNat (Nat.pow 2 63 + magnitudeOfNat i.natAbs)⟩

/-- The number nearest to a natural number. -/
def ofNat (n : Nat) : Double :=
  ofInt n

example : ofInt 1 = ⟨0x3ff0000000000000⟩ := by decide +kernel
example : ofInt (-3) = ⟨0xc008000000000000⟩ := by decide +kernel
example : ofInt (2 ^ 53 + 1) = ofInt (2 ^ 53) := by decide +kernel
example : ofInt (2 ^ 63 - 1) = ⟨0x43e0000000000000⟩ := by decide +kernel

end Double

end ScriptCompiler
