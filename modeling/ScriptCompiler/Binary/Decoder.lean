import ScriptCompiler.Binary.Bytes
import ScriptCompiler.Text.Hex

/-!
# Reading bytes

A cursor holds the bytes not read yet and the number of those read.  A decoder reads from a cursor
and yields a value or an error; in both cases the cursor stands behind what was read.
-/

namespace ScriptCompiler.Binary

/-- The tables that an index can miss. -/
inductive IndexedTable where
  | stringPool | methods
deriving DecidableEq, Repr, Inhabited

/-- The word for the table in messages. -/
def IndexedTable.text : IndexedTable → String
  | .stringPool => "string pool"
  | .methods => "method table"

/-- Why bytes cannot be read. -/
inductive DecodeError where
  | unexpectedEnd (offset : Nat)
  | invalidUtf8 (offset : Nat)
  | invalidTag (tag : UInt8) (offset : Nat)
  | indexOutOfRange (table : IndexedTable) (index : UInt32) (length : Nat)
deriving DecidableEq, Repr, Inhabited

/-- The text of the error. -/
def DecodeError.message : DecodeError → String
  | .unexpectedEnd offset => "Unexpected end of metadata at offset " ++ toString offset
  | .invalidUtf8 offset => "Invalid UTF-8 string at offset " ++ toString offset
  | .invalidTag tag offset =>
    "Invalid tag " ++ Text.hexMarked 2 tag.toNat ++ " at offset " ++ toString offset
  | .indexOutOfRange table index length =>
    "Index " ++ toString index.toNat ++ " out of range for " ++ table.text
      ++ " (length " ++ toString length ++ ")"

/-- A position in bytes that are being read. -/
structure Cursor where
  /-- Number of bytes read. -/
  position : Nat := 0
  /-- Bytes not read yet. -/
  rest : Bytes := []
deriving DecidableEq, Repr, Inhabited

/-- The start of the bytes. -/
def Cursor.start (bytes : Bytes) : Cursor where
  rest := bytes

/-- Reads from a cursor. -/
abbrev Decoder (ε : Type) := EStateM ε Cursor

namespace Decoder

/-- The value read from the start of the bytes. -/
def decode {ε α : Type} (d : Decoder ε α) (bytes : Bytes) : Except ε α :=
  match d (.start bytes) with
  | .ok a _ => .ok a
  | .error e _ => .error e

/-- Number of bytes read. -/
def position {ε : Type} : Decoder ε Nat := do
  return (← get).position

/-- Number of bytes not read yet. -/
def remaining {ε : Type} : Decoder ε Nat := do
  return (← get).rest.length

/-- Reads with an upper bound on the depth of what is read.  Every level takes a byte, so the
number of bytes left is one. -/
def bounded {ε α : Type} (d : Nat → Decoder ε α) : Decoder ε α := do
  d ((← remaining) + 1)

/-- Reads with another type of error. -/
def mapError {ε δ α : Type} (f : ε → δ) (d : Decoder ε α) : Decoder δ α := fun c =>
  match d c with
  | .ok a c => .ok a c
  | .error e c => .error (f e) c

/-- Reads a number of values, one after the other. -/
def replicate {ε α : Type} (d : Decoder ε α) : Nat → Decoder ε (List α)
  | 0 => return []
  | n + 1 => do
    let a ← d
    return a :: (← replicate d n)

/-- The error that the bytes end here. -/
def endOfInput {α : Type} : Decoder DecodeError α := do
  throw (.unexpectedEnd (← position))

/-- Reads a number of bytes; if there are fewer, none of them. -/
def bytes (n : Nat) : Decoder DecodeError Bytes := fun c =>
  let taken := c.rest.take n
  if taken.length < n then .error (.unexpectedEnd c.position) c
  else .ok taken { position := c.position + n, rest := c.rest.drop n }

/-- Reads a number of the given size in bytes. -/
def number (size : Nat) : Decoder DecodeError Nat := do
  return ofLittleEndian (← bytes size)

/-- Reads a byte. -/
def word8 : Decoder DecodeError UInt8 := do
  return UInt8.ofNat (← number 1)

/-- Reads a 16-bit number. -/
def word16 : Decoder DecodeError UInt16 := do
  return UInt16.ofNat (← number 2)

/-- Reads a 32-bit number. -/
def word32 : Decoder DecodeError UInt32 := do
  return UInt32.ofNat (← number 4)

/-- Reads a 64-bit number. -/
def word64 : Decoder DecodeError UInt64 := do
  return UInt64.ofNat (← number 8)

/-- Reads bytes behind their length. -/
def blob : Decoder DecodeError Bytes := do
  bytes (← word32).toNat

/-- Reads a text that may be missing. -/
def nullableString : Decoder DecodeError (Option String) := do
  let length ← word32
  if length = missing then return none
  let start ← position
  match String.fromUTF8? (← bytes length.toNat).toByteArray with
  | some s => return some s
  | none => throw (.invalidUtf8 start)

/-- Reads a text; a missing one is empty. -/
def string : Decoder DecodeError String := do
  return (← nullableString).getD ""

/-- Reads an index that may be missing. -/
def optionalIndex : Decoder DecodeError (Option UInt32) := do
  let index ← word32
  return if index = missing then none else some index

/-- Reads values behind their number. -/
def counted {α : Type} (d : Decoder DecodeError α) : Decoder DecodeError (List α) := do
  replicate d (← word32).toNat

end Decoder

end ScriptCompiler.Binary
