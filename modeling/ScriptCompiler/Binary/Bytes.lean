/-!
# Writing bytes

Numbers are written with their least significant byte first.  Texts and byte sequences follow
their length; the greatest 32-bit length stands for a text that is missing.
-/

namespace ScriptCompiler.Binary

/-- A sequence of bytes. -/
abbrev Bytes := List UInt8

/-- The lowest `size` bytes of a number, the least significant first. -/
def littleEndian : Nat → Nat → Bytes
  | 0, _ => []
  | size + 1, n => UInt8.ofNat (n % 256) :: littleEndian size (n / 256)

/-- The number that bytes denote, the least significant first. -/
def ofLittleEndian : Bytes → Nat
  | [] => 0
  | b :: rest => b.toNat + 256 * ofLittleEndian rest

/-- A 16-bit number. -/
def word16 (n : UInt16) : Bytes :=
  littleEndian 2 n.toNat

/-- A 32-bit number. -/
def word32 (n : UInt32) : Bytes :=
  littleEndian 4 n.toNat

/-- A 64-bit number. -/
def word64 (n : UInt64) : Bytes :=
  littleEndian 8 n.toNat

/-- The number of items of a list. -/
def count (n : Nat) : Bytes :=
  word32 (UInt32.ofNat n)

/-- What stands for a missing length or index. -/
def missing : UInt32 := 0xffffffff

/-- Bytes behind their length. -/
def blob (bytes : Bytes) : Bytes :=
  count bytes.length ++ bytes

/-- The UTF-8 bytes of a text. -/
def utf8 (s : String) : Bytes :=
  s.toByteArray.data.toList

/-- A text behind its length. -/
def string (s : String) : Bytes :=
  blob (utf8 s)

/-- A text that may be missing. -/
def nullableString : Option String → Bytes
  | some s => string s
  | none => word32 missing

/-- An index that may be missing. -/
def optionalIndex (index : Option UInt32) : Bytes :=
  word32 (index.getD missing)

/-- Replaces the 32-bit number at an offset; `none` if it is not inside the bytes. -/
def patch? (bytes : Bytes) (offset : Nat) (n : UInt32) : Option Bytes :=
  if offset + 4 ≤ bytes.length then
    some (bytes.take offset ++ word32 n ++ bytes.drop (offset + 4))
  else none

end ScriptCompiler.Binary
