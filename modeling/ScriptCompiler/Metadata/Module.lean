import ScriptCompiler.Binary.Crc32
import ScriptCompiler.Binary.Sha256
import ScriptCompiler.Metadata.Table

/-!
# Metadata modules

The bytes of a module are four magic bytes, a version, the CRC-32 and the SHA-256 of the payload,
and the payload: string pool, module name and types.  Reading checks both sums, every position of
an accessor, and that every chain of enclosing types ends.
-/

namespace ScriptCompiler.Metadata

open Binary

/-- A module: its types in order, nested ones with the position of the enclosing type. -/
structure Module where
  name : String := "m"
  types : List TypeEntry := []
  /-- SHA-256 of the payload that the module was read from. -/
  checksum : Bytes := List.replicate 32 0
deriving DecidableEq, Repr, Inhabited

/-- Why a module cannot be read. -/
inductive ModuleError where
  | decodeError (error : DecodeError)
  | invalidMagic (bytes : Bytes)
  | unsupportedVersion (version : UInt32)
  | checksumMismatch (expected actual : UInt32)
  | hashMismatch (expected actual : Bytes)
  /-- The chain of enclosing types of a type leaves the module or never ends. -/
  | invalidEnclosingType (typeName : String) (index : UInt32)
  /-- The file cannot be read. -/
  | ioError
deriving DecidableEq, Repr, Inhabited

/-- The first bytes of every module. -/
def magic : Bytes := [0x53, 0x42, 0x4c, 0x4d]

/-- The version of the format. -/
def version : UInt32 := 1

/-- The text of the error. -/
def ModuleError.message : ModuleError → String
  | .decodeError error => "Decode error: " ++ error.message
  | .invalidMagic bytes =>
    "Invalid magic number: expected SBLM, got ["
      ++ ", ".intercalate (bytes.map fun b => toString b.toNat) ++ "]"
  | .unsupportedVersion found =>
    "Unsupported version: " ++ toString found.toNat ++ " (current: " ++ toString version.toNat ++ ")"
  | .checksumMismatch expected actual =>
    "Checksum mismatch: expected " ++ Text.hexMarked 1 expected.toNat
      ++ ", got " ++ Text.hexMarked 1 actual.toNat
  | .hashMismatch expected actual =>
    "Content hash mismatch: expected " ++ Text.hexBytes expected
      ++ ", got " ++ Text.hexBytes actual
  | .invalidEnclosingType typeName index =>
    "Type " ++ typeName ++ " has invalid enclosing type " ++ toString index.toNat
  | .ioError => "I/O error"

/-! ## Enclosing types -/

/-- The full name of a type whose chain of enclosing types has at most the given length: the path
of the outermost type, then the names joined by `+`. -/
def fullNameWithin (types : List TypeEntry) : Nat → Nat → Option String
  | 0, _ => none
  | depth + 1, i => do
    let t ← types[i]?
    match t.enclosing with
    | some outer => return (← fullNameWithin types depth outer.toNat) ++ "+" ++ t.name
    | none => return if t.path.isEmpty then t.name else t.path ++ "." ++ t.name

/-- Follows the chain of enclosing types for at most the given number of steps.  Yields the
position at which the chain leaves the types or goes on too long. -/
def badEnclosing? (types : List TypeEntry) : Nat → Option UInt32 → Option UInt32
  | _, none => none
  | 0, some i => some i
  | steps + 1, some i =>
    match types[i.toNat]? with
    | some outer => badEnclosing? types steps outer.enclosing
    | none => some i

/-- The first type whose chain of enclosing types is bad. -/
def checkEnclosing (types : List TypeEntry) : Except ModuleError Unit :=
  types.forM fun t =>
    match badEnclosing? types types.length t.enclosing with
    | some i => throw (.invalidEnclosingType t.name i)
    | none => return ()

namespace Module

/-- The full name of a type; `none` if there is no such type or its chain of enclosing types is
bad.  The chain is followed for as many steps as there are types. -/
def fullName? (m : Module) (i : Nat) : Option String :=
  fullNameWithin m.types (m.types.length + 1) i

/-! ## Bytes -/

/-- Writes name and types. -/
def emitTables (m : Module) : Emit Bytes := do
  return (← emitName m.name) ++ (← emitList TypeEntry.emit m.types)

/-- The payload: the pool that the tables fill, then the tables. -/
def payload (m : Module) : Bytes :=
  let (tables, pool) := m.emitTables.run {}
  pool.encode ++ tables

/-- A payload behind its header, which holds its CRC-32 and its digest. -/
def withHeader (digest : Bytes → Bytes) (payload : Bytes) : Bytes :=
  magic ++ word32 version ++ word32 (crc32 payload) ++ digest payload ++ payload

/-- The bytes of a module; the digest is the SHA-256. -/
def encode (m : Module) : Bytes :=
  withHeader sha256 m.payload

/-- Reads the header: the stored CRC-32 and digest. -/
def decodeHeader : Decoder ModuleError (UInt32 × Bytes) := do
  let first ← (Decoder.bytes 4).mapError .decodeError
  if first ≠ magic then throw (.invalidMagic first)
  let found ← Decoder.word32.mapError .decodeError
  if found ≠ version then throw (.unsupportedVersion found)
  let crc ← Decoder.word32.mapError .decodeError
  let hash ← (Decoder.bytes 32).mapError .decodeError
  return (crc, hash)

/-- Checks the sums of the payload, which is all that is not read yet. -/
def checkSums (digest : Bytes → Bytes) (crc : UInt32) (hash : Bytes) :
    Decoder ModuleError Unit := do
  let payload := (← get).rest
  if crc ≠ crc32 payload then throw (.checksumMismatch crc (crc32 payload))
  if hash ≠ digest payload then throw (.hashMismatch hash (digest payload))

/-- Reads the payload: name and types. -/
def decodePayload : Decoder DecodeError (String × List TypeEntry) := do
  let pool ← Pool.decode
  let name ← decodeName pool
  let types ← Decoder.counted (TypeEntry.decode pool)
  return (name, types)

/-- Reads a module whose header holds the digest of its payload. -/
def decoder (digest : Bytes → Bytes) : Decoder ModuleError Module := do
  let (crc, hash) ← decodeHeader
  checkSums digest crc hash
  let (name, types) ← decodePayload.mapError .decodeError
  match checkEnclosing types with
  | .ok () => return { name, types, checksum := hash }
  | .error e => throw e

/-- The module with the given bytes; bytes behind the types are ignored. -/
def decode (bytes : Bytes) : Except ModuleError Module :=
  (decoder sha256).decode bytes

/-- The module in a file with the given content, which is missing if the file cannot be read. -/
def ofFile (content : Option Bytes) : Except ModuleError Module :=
  match content with
  | some bytes => decode bytes
  | none => .error .ioError

end Module

end ScriptCompiler.Metadata
