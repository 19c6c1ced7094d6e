import ScriptCompiler.Attribute.Value

/-!
# Attribute arguments in bytes

After two leading bytes the arguments of the constructor follow in the order of its parameters,
each written according to the element type of its parameter, then the number of named arguments,
and each named argument with its kind, element type, name and value.

A boxed value is written behind its own element type.
-/

namespace ScriptCompiler.Attribute

open Binary
open Metadata (Signature)

/-- Why arguments cannot be written or read. -/
inductive BlobError where
  | decode (error : DecodeError)
  | invalidProlog (found : UInt16)
  | unknownElementType (tag : UInt8) (offset : Nat)
  | invalidNamedArgumentKind (tag : UInt8) (offset : Nat)
  | invalidChar (code : Nat)
  | unsupportedParameterType (type : String)
  | valueMismatch (expected found : ElementType)
  | argumentCountMismatch (expected actual : Nat)
  | trailingBytes (count : Nat)
deriving DecidableEq, Repr, Inhabited

namespace BlobError

/-- The text of the error. -/
def message : BlobError → String
  | decode error => "Decode error: " ++ error.message
  | invalidProlog found =>
    "Invalid attribute blob prolog: " ++ Text.hexMarked 4 found.toNat
  | unknownElementType tag offset =>
    "Unknown element type " ++ Text.hexMarked 2 tag.toNat ++ " at offset " ++ toString offset
  | invalidNamedArgumentKind tag offset =>
    "Invalid named argument kind " ++ Text.hexMarked 2 tag.toNat ++ " at offset "
      ++ toString offset
  | invalidChar code => "Invalid char value " ++ Text.hexMarked 1 code
  | unsupportedParameterType type => "Unsupported attribute parameter type: " ++ type
  | valueMismatch expected found =>
    "Expected " ++ expected.text ++ " value, found " ++ found.text
  | argumentCountMismatch expected actual =>
    "Expected " ++ toString expected ++ " fixed arguments, got " ++ toString actual
  | trailingBytes count => toString count ++ " trailing bytes after attribute arguments"

/-- The texts of the error and of its causes. -/
def chain : BlobError → List String
  | decode error => [(decode error).message, error.message]
  | e => [e.message]

end BlobError

/-- The two bytes in front of the arguments, as a number. -/
def prolog : UInt16 := 1

/-! ## Element types -/

/-- The tag of an integer type. -/
def IntegerKind.tag : IntegerKind → UInt8
  | .i8 => 0x04
  | .u8 => 0x05
  | .i16 => 0x06
  | .u16 => 0x07
  | .i32 => 0x08
  | .u32 => 0x09
  | .i64 => 0x0a
  | .u64 => 0x0b

namespace ElementType

/-- The bytes of an element type. -/
def encode : ElementType → Bytes
  | boolean => [0x02]
  | char => [0x03]
  | integer kind => [kind.tag]
  | single => [0x0c]
  | double => [0x0d]
  | string => [0x0e]
  | type => [0x50]
  | boxed => [0x51]
  | enum typeName underlying => 0x55 :: Binary.string typeName ++ underlying.encode
  | array element => 0x1d :: element.encode

/-- The element type with the given tag, if a tag is all it has. -/
def ofTag? (tag : UInt8) : Option ElementType :=
  match IntegerKind.all.find? (·.tag == tag) with
  | some kind => some (integer kind)
  | none =>
    match tag.toNat with
    | 0x02 => some boolean
    | 0x03 => some char
    | 0x0c => some single
    | 0x0d => some double
    | 0x0e => some string
    | 0x50 => some type
    | 0x51 => some boxed
    | _ => none

/-- Reads an element type of at most the given depth. -/
def decodeWithin : Nat → Decoder BlobError ElementType
  | 0 => Decoder.endOfInput.mapError .decode
  | depth + 1 => do
    let offset ← Decoder.position
    let tag ← Decoder.word8.mapError .decode
    match ofTag? tag with
    | some t => return t
    | none =>
      if tag = 0x55 then
        return enum (← Decoder.string.mapError .decode) (← decodeWithin depth)
      else if tag = 0x1d then return array (← decodeWithin depth)
      else throw (.unknownElementType tag offset)

/-- Reads an element type. -/
def decode : Decoder BlobError ElementType :=
  Decoder.bounded decodeWithin

end ElementType

/-! ## Writing -/

/-- Writes a value as `t`.  A boxed one follows its `actual` element type and is written as it. -/
def boxing (t actual : ElementType) (plain : ElementType → Except BlobError Bytes) :
    Except BlobError Bytes :=
  if t = .boxed then do return actual.encode ++ (← plain actual) else plain t

mutual

/-- The bytes of a value as an element type that is not boxed. -/
def Value.encodePlain : Value → ElementType → Except BlobError Bytes
  | .null, t =>
    match t with
    | .string | .type | .array _ => .ok (word32 missing)
    | _ => .error (.valueMismatch t .string)
  | .boolean b, t =>
    if t = .boolean then .ok [if b then 1 else 0] else .error (.valueMismatch t .boolean)
  | .char c, t =>
    if t = .char then
      if c.toNat < 2 ^ 16 then .ok (littleEndian 2 c.toNat) else .error (.invalidChar c.toNat)
    else .error (.valueMismatch t .char)
  | .integer kind bits, t =>
    if t = .integer kind then .ok (littleEndian kind.size bits.toNat)
    else .error (.valueMismatch t (.integer kind))
  | .single bits, t =>
    if t = .single then .ok (word32 bits) else .error (.valueMismatch t .single)
  | .double value, t =>
    if t = .double then .ok (word64 value.bits) else .error (.valueMismatch t .double)
  | .string s, t =>
    if t = .string then .ok (Binary.string s) else .error (.valueMismatch t .string)
  | .type s, t =>
    if t = .type then .ok (Binary.string s) else .error (.valueMismatch t .type)
  | .enum typeName value, t =>
    let mismatch := .error (.valueMismatch t (.enum typeName value.elementType))
    match t with
    | .enum name underlying =>
      if name = typeName then boxing underlying value.elementType value.encodePlain else mismatch
    | _ => mismatch
  | .array element values, t =>
    if t = .array element then do
      return count values.length ++ (← Value.encodeSequence values element)
    else .error (.valueMismatch t (.array element))

/-- The bytes of values one after the other. -/
def Value.encodeSequence : List Value → ElementType → Except BlobError Bytes
  | [], _ => .ok []
  | v :: rest, t => do
    return (← boxing t v.elementType v.encodePlain) ++ (← Value.encodeSequence rest t)

end

/-- The bytes of a value as the given element type. -/
def Value.encodeAs (v : Value) (t : ElementType) : Except BlobError Bytes :=
  boxing t v.elementType v.encodePlain

/-- The element type of a parameter. -/
def parameterType (s : Signature) : Except BlobError ElementType :=
  (ElementType.ofParameter s).mapError .unsupportedParameterType

/-- The bytes of the arguments of a constructor, parameter by parameter. -/
def encodeFixed : List Signature → List Value → Except BlobError Bytes
  | s :: signatures, v :: values => do
    let t ← parameterType s
    return (← v.encodeAs t) ++ (← encodeFixed signatures values)
  | _, _ => .ok []

/-- The tag of the kind of a named argument. -/
def NamedKind.tag : NamedKind → UInt8
  | .field => 0x53
  | .property => 0x54

/-- The bytes of a named argument. -/
def NamedArgument.encode (a : NamedArgument) : Except BlobError Bytes := do
  let t := a.value.elementType
  return a.kind.tag :: t.encode ++ Binary.string a.name ++ (← a.value.encodeAs t)

/-- The bytes of named arguments one after the other. -/
def encodeNamed : List NamedArgument → Except BlobError Bytes
  | [] => .ok []
  | a :: rest => do return (← a.encode) ++ (← encodeNamed rest)

/-- The bytes of the arguments of an attribute whose constructor has the given parameters. -/
def Arguments.encode (a : Arguments) (parameters : List Signature) : Except BlobError Bytes := do
  if parameters.length ≠ a.fixed.length then
    throw (.argumentCountMismatch parameters.length a.fixed.length)
  let fixed ← encodeFixed parameters a.fixed
  let named ← encodeNamed a.named
  return word16 prolog ++ fixed ++ word16 (UInt16.ofNat a.named.length) ++ named

/-! ## Reading -/

namespace Value

/-- Reads a text or stands for a missing one. -/
def decodeText (f : String → Value) : Decoder BlobError Value := do
  return match ← Decoder.nullableString.mapError .decode with
    | some s => f s
    | none => .null

/-- Reads a value of an element type; a boxed one is read by `boxed`. -/
def decodeWith (boxed : Decoder BlobError Value) : ElementType → Decoder BlobError Value
  | .boolean => do return .boolean ((← Decoder.word8.mapError .decode) != 0)
  | .char => do
    let code ← (Decoder.number 2).mapError .decode
    if code.isValidChar then return .char (Char.ofNat code) else throw (.invalidChar code)
  | .integer kind => do
    return .integer kind (BitVec.ofNat _ (← (Decoder.number kind.size).mapError .decode))
  | .single => do return .single (← Decoder.word32.mapError .decode)
  | .double => do return .double ⟨← Decoder.word64.mapError .decode⟩
  | .string => decodeText .string
  | .type => decodeText .type
  | .boxed => boxed
  | .enum typeName underlying => do return .enum typeName (← decodeWith boxed underlying)
  | .array element => do
    let length ← Decoder.word32.mapError .decode
    if length = missing then return .null
    return .array element (← Decoder.replicate (decodeWith boxed element) length.toNat)

/-- Reads a boxed value of at most the given depth of boxing. -/
def decodeBoxed : Nat → Decoder BlobError Value
  | 0 => Decoder.endOfInput.mapError .decode
  | depth + 1 => do
    let t ← ElementType.decode
    decodeWith (decodeBoxed depth) t

/-- Reads a value of the given element type. -/
def decode (t : ElementType) : Decoder BlobError Value :=
  Decoder.bounded fun depth => decodeWith (decodeBoxed depth) t

end Value

/-- Reads the arguments of a constructor, parameter by parameter. -/
def decodeFixed : List Signature → Decoder BlobError (List Value)
  | [] => return []
  | s :: rest => do
    match parameterType s with
    | .ok t => return (← Value.decode t) :: (← decodeFixed rest)
    | .error e => throw e

/-- Reads a named argument. -/
def NamedArgument.decode : Decoder BlobError NamedArgument := do
  let offset ← Decoder.position
  let tag ← Decoder.word8.mapError .decode
  if tag ≠ NamedKind.field.tag ∧ tag ≠ NamedKind.property.tag then
    throw (.invalidNamedArgumentKind tag offset)
  let t ← ElementType.decode
  let name ← Decoder.string.mapError .decode
  let value ← Value.decode t
  return { kind := if tag = NamedKind.field.tag then .field else .property, name, value }

/-- Reads named arguments behind their number; at the end of the bytes there are none. -/
def decodeNamed : Decoder BlobError (List NamedArgument) := do
  if (← Decoder.remaining) = 0 then return []
  Decoder.replicate NamedArgument.decode (← Decoder.word16.mapError .decode).toNat

namespace Arguments

/-- Reads the arguments of an attribute whose constructor has the given parameters, up to the end
of the bytes. -/
def decoder (parameters : List Signature) : Decoder BlobError Arguments := do
  let found ← Decoder.word16.mapError .decode
  if found ≠ prolog then throw (.invalidProlog found)
  let fixed ← decodeFixed parameters
  let named ← decodeNamed
  let left ← Decoder.remaining
  if left ≠ 0 then throw (.trailingBytes left)
  return { fixed, named }

/-- The arguments with the given bytes.  No bytes stand for no arguments. -/
def decode (blob : Bytes) (parameters : List Signature) : Except BlobError Arguments :=
  if blob.isEmpty && parameters.isEmpty then .ok {} else (decoder parameters).decode blob

end Arguments

end ScriptCompiler.Attribute
