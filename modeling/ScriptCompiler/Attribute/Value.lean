import ScriptCompiler.Metadata.Signature
import ScriptCompiler.Number.Double

/-!
# Attribute values

Constant arguments of attributes, and the element types that describe them.
-/

namespace ScriptCompiler.Attribute

open Metadata (Signature)

/-- The integer types. -/
inductive IntegerKind where
  | i8 | u8 | i16 | u16 | i32 | u32 | i64 | u64
deriving DecidableEq, Repr, Inhabited

namespace IntegerKind

/-- Every integer type, in order of declaration. -/
def all : List IntegerKind :=
  [i8, u8, i16, u16, i32, u32, i64, u64]

/-- Size in bytes. -/
def size : IntegerKind → Nat
  | i8 | u8 => 1
  | i16 | u16 => 2
  | i32 | u32 => 4
  | i64 | u64 => 8

/-- Whether the type has negative values. -/
def isSigned : IntegerKind → Bool
  | i8 | i16 | i32 | i64 => true
  | u8 | u16 | u32 | u64 => false

/-- The keyword for the type. -/
def text : IntegerKind → String
  | i8 => "sbyte"
  | u8 => "byte"
  | i16 => "short"
  | u16 => "ushort"
  | i32 => "int"
  | u32 => "uint"
  | i64 => "long"
  | u64 => "ulong"

/-- The full name of the type. -/
def fullName : IntegerKind → String
  | i8 => "System.SByte"
  | u8 => "System.Byte"
  | i16 => "System.Int16"
  | u16 => "System.UInt16"
  | i32 => "System.Int32"
  | u32 => "System.UInt32"
  | i64 => "System.Int64"
  | u64 => "System.UInt64"

/-- The integer that a bit pattern of the type denotes. -/
def value (k : IntegerKind) (bits : BitVec (8 * k.size)) : Int :=
  if k.isSigned then bits.toInt else bits.toNat

end IntegerKind

/-- The type of an attribute value. -/
inductive ElementType where
  | boolean
  | char
  | integer (kind : IntegerKind)
  | single
  | double
  | string
  /-- A type, by full name. -/
  | type
  /-- A value behind its own element type. -/
  | boxed
  /-- An enumeration over an integer type. -/
  | enum (typeName : String) (underlying : ElementType)
  /-- An array of one dimension. -/
  | array (element : ElementType)
deriving DecidableEq, Repr, Inhabited

/-- The text of an element type. -/
def ElementType.text : ElementType → String
  | .boolean => "bool"
  | .char => "char"
  | .integer kind => kind.text
  | .single => "float"
  | .double => "double"
  | .string => "string"
  | .type => "System.Type"
  | .boxed => "object"
  | .enum typeName _ => typeName
  | .array element => element.text ++ "[]"

/-- The element type of a parameter of the named type; any type without one of its own is boxed. -/
def ElementType.ofName (name : String) : ElementType :=
  match IntegerKind.all.find? (·.fullName == name) with
  | some kind => .integer kind
  | none =>
    match name with
    | "System.Boolean" => .boolean
    | "System.Char" => .char
    | "System.Single" => .single
    | "System.Double" => .double
    | "System.String" => .string
    | "System.Type" => .type
    | _ => .boxed

/-- The element type of a constructor parameter, or the text of the innermost signature that
cannot carry a value. -/
def ElementType.ofParameter : Signature → Except String ElementType
  | .named name [] => .ok (.ofName name)
  | .array element rank =>
    if rank = 1 then do return .array (← ofParameter element)
    else .error (Signature.array element rank).text
  | other => .error other.text

/-- A constant argument of an attribute. -/
inductive Value where
  /-- A missing text, type or array. -/
  | null
  | boolean (value : Bool)
  | char (value : Char)
  | integer (kind : IntegerKind) (bits : BitVec (8 * kind.size))
  /-- A 32-bit floating point number, by its bit pattern. -/
  | single (bits : UInt32)
  | double (value : Double)
  | string (value : String)
  /-- A type, by full name. -/
  | type (name : String)
  /-- A member of an enumeration, by its value. -/
  | enum (typeName : String) (value : Value)
  | array (element : ElementType) (values : List Value)

namespace Value

instance : Inhabited Value := ⟨.null⟩

/-- The element type that describes the value. -/
def elementType : Value → ElementType
  | .null | .string _ => .string
  | .boolean _ => .boolean
  | .char _ => .char
  | .integer kind _ => .integer kind
  | .single _ => .single
  | .double _ => .double
  | .type _ => .type
  | .enum typeName value => .enum typeName value.elementType
  | .array element _ => .array element

/-- The text, if the value is one. -/
def string? : Value → Option String
  | .string s => some s
  | _ => none

/-- The truth value, if the value is one. -/
def boolean? : Value → Option Bool
  | .boolean b => some b
  | _ => none

/-- The integer that the value or the member of an enumeration denotes, if it fits into a signed
64-bit number. -/
def int64? : Value → Option Int
  | .integer kind bits =>
    let n := kind.value bits
    if n < 2 ^ 63 then some n else none
  | .enum _ value => value.int64?
  | _ => none

end Value

/-- Whether a named argument sets a field or a property. -/
inductive NamedKind where
  | field | property
deriving DecidableEq, Repr, Inhabited

/-- A named argument. -/
structure NamedArgument where
  kind : NamedKind
  name : String
  value : Value
deriving Inhabited

/-- The arguments of an attribute. -/
structure Arguments where
  /-- Arguments of the constructor. -/
  fixed : List Value := []
  named : List NamedArgument := []
deriving Inhabited

end ScriptCompiler.Attribute
