/-!
# Hexadecimal text

Numbers in lower-case hexadecimal, bytes as pairs of digits, and the reading of such pairs.
-/

namespace ScriptCompiler.Text

/-- The lower-case hexadecimal digits of `n`, most significant first. -/
def hexDigits (n : Nat) : List Char :=
  Nat.toDigits 16 n

/-- The digits of `n`, filled up with zeros in front to at least `width` digits. -/
def hexPadded (width n : Nat) : String :=
  let digits := hexDigits n
  String.ofList (List.replicate (width - digits.length) '0' ++ digits)

/-- The digits of `n` behind `0x`, filled up to at least `width` digits. -/
def hexMarked (width n : Nat) : String :=
  "0x" ++ hexPadded width n

/-- A byte as two digits. -/
def hexByte (b : UInt8) : String :=
  hexPadded 2 b.toNat

/-- A sequence of bytes as pairs of digits. -/
def hexBytes (bytes : List UInt8) : String :=
  String.join (bytes.map hexByte)

/-- The value of one hexadecimal digit in either case. -/
def hexDigitValue? (c : Char) : Option Nat :=
  if '0' ≤ c ∧ c ≤ '9' then some (c.toNat - '0'.toNat)
  else if 'a' ≤ c ∧ c ≤ 'f' then some (c.toNat - 'a'.toNat + 10)
  else if 'A' ≤ c ∧ c ≤ 'F' then some (c.toNat - 'A'.toNat + 10)
  else none

/-- The number that a list of hexadecimal digits denotes; `none` if one of them is no digit. -/
def hexValue? (digits : List Char) : Option Nat :=
  digits.foldlM (fun n c => (hexDigitValue? c).map (16 * n + ·)) 0

/-- The bytes that pairs of hexadecimal digits denote. -/
def hexBytes? : List Char → Option (List UInt8)
  | [] => some []
  | [_] => none
  | a :: b :: rest => do
    let high ← hexDigitValue? a
    let low ← hexDigitValue? b
    return UInt8.ofNat (16 * high + low) :: (← hexBytes? rest)

end ScriptCompiler.Text
