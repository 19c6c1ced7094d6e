import ScriptCompiler.Binary.Bytes

/-!
# The CRC-32 of a sequence of bytes

The remainder is kept reflected: the lowest bit belongs to the highest power.  It starts and ends
complemented.
-/

namespace ScriptCompiler.Binary

namespace Crc32

/-- The generator polynomial, reflected. -/
def polynomial : BitVec 32 := 0xedb88320#32

/-- Takes in one bit. -/
def shift (r : BitVec 32) : BitVec 32 :=
  if r.getLsbD 0 then (r >>> 1) ^^^ polynomial else r >>> 1

/-- Takes in a number of bits. -/
def shifts : Nat → BitVec 32 → BitVec 32
  | 0, r => r
  | n + 1, r => shifts n (shift r)

/-- Takes in one byte. -/
def step (r : BitVec 32) (b : UInt8) : BitVec 32 :=
  shifts 8 (r ^^^ b.toBitVec.setWidth 32)

end Crc32

/-- The CRC-32 of a sequence of bytes. -/
def crc32 (bytes : Bytes) : UInt32 :=
  ⟨~~~(bytes.foldl Crc32.step (~~~0#32))⟩

end ScriptCompiler.Binary
