import ScriptCompiler.Metadata.Pool
import ScriptCompiler.Source.TypeRef

/-!
# Signatures

Types and members as metadata spells them.  Type parameters are written by position, so a
signature agrees with a type reference of the program whatever names either side gave them.
-/

namespace ScriptCompiler.Metadata

open Binary

/-- A type as metadata spells it. -/
inductive Signature where
  /-- A named type; the full name has an arity suffix, and nested types follow `+`. -/
  | named (fullName : String) (arguments : List Signature)
  /-- A type parameter of the declaring type. -/
  | typeParameter (index : UInt32)
  /-- A type parameter of the method. -/
  | methodParameter (index : UInt32)
  | array (element : Signature) (rank : UInt32)
  /-- A managed reference. -/
  | byRef (target : Signature)
  /-- An unmanaged pointer. -/
  | pointer (target : Signature)
deriving Repr, Inhabited

namespace Signature

/-- A named type without arguments. -/
def simple (fullName : String) : Signature :=
  .named fullName []

/-- The full name of a named type. -/
def fullName? : Signature → Option String
  | .named name _ => some name
  | _ => none

end Signature

/-- The brackets of an array type: one comma less than it has dimensions. -/
def rankText (rank : UInt32) : String :=
  "[" ++ String.ofList (List.replicate (rank.toNat - 1) ',') ++ "]"

/-- A name followed by its arguments in angle brackets, if it has any. -/
def genericText (name : String) : List String → String
  | [] => name
  | arguments => name ++ "<" ++ ",".intercalate arguments ++ ">"

mutual

/-- The text of a signature. -/
def Signature.text : Signature → String
  | .named name arguments => genericText name (Signature.texts arguments)
  | .typeParameter index => "!" ++ toString index.toNat
  | .methodParameter index => "!!" ++ toString index.toNat
  | .array element rank => element.text ++ rankText rank
  | .byRef target => target.text ++ "&"
  | .pointer target => target.text ++ "*"

/-- The texts of a list of signatures. -/
def Signature.texts : List Signature → List String
  | [] => []
  | s :: rest => s.text :: Signature.texts rest

end

/-! ## Comparison -/

mutual

/-- The signature of a type reference. -/
def Signature.ofType : TypeRef → Signature
  | .named name arguments => .named name (Signature.ofTypes arguments)
  | .parameter .type index => .typeParameter index
  | .parameter .method index => .methodParameter index
  | .array element rank => .array (Signature.ofType element) rank
  | .byRef target => .byRef (Signature.ofType target)
  | .pointer target => .pointer (Signature.ofType target)

/-- The signatures of a list of type references. -/
def Signature.ofTypes : List TypeRef → List Signature
  | [] => []
  | t :: rest => Signature.ofType t :: Signature.ofTypes rest

end

mutual

/-- Whether a signature spells the given type. -/
def Signature.matches : Signature → TypeRef → Bool
  | .named name arguments, .named other types =>
    name == other && Signature.matchesAll arguments types
  | .typeParameter i, .parameter .type j => i == j
  | .methodParameter i, .parameter .method j => i == j
  | .array element rank, .array type r => rank == r && element.matches type
  | .byRef target, .byRef type => target.matches type
  | .pointer target, .pointer type => target.matches type
  | _, _ => false

/-- Whether signatures spell the given types, position by position. -/
def Signature.matchesAll : List Signature → List TypeRef → Bool
  | [], [] => true
  | s :: signatures, t :: types => s.matches t && Signature.matchesAll signatures types
  | _, _ => false

end

mutual

/-- Whether two signatures are the same. -/
def Signature.same : Signature → Signature → Bool
  | .named n xs, .named m ys => n == m && Signature.sameAll xs ys
  | .typeParameter i, .typeParameter j => i == j
  | .methodParameter i, .methodParameter j => i == j
  | .array s r, .array t q => s.same t && r == q
  | .byRef s, .byRef t => s.same t
  | .pointer s, .pointer t => s.same t
  | _, _ => false

/-- Whether two lists of signatures are the same. -/
def Signature.sameAll : List Signature → List Signature → Bool
  | [], [] => true
  | s :: ss, t :: ts => s.same t && Signature.sameAll ss ts
  | _, _ => false

end

mutual

/-- The comparison decides equality. -/
theorem Signature.same_iff : ∀ s t : Signature, s.same t = true ↔ s = t
  | .named n xs, t => by cases t <;> simp [Signature.same, Signature.sameAll_iff xs]
  | .typeParameter i, t => by cases t <;> simp [Signature.same]
  | .methodParameter i, t => by cases t <;> simp [Signature.same]
  | .array s r, t => by cases t <;> simp [Signature.same, Signature.same_iff s]
  | .byRef s, t => by cases t <;> simp [Signature.same, Signature.same_iff s]
  | .pointer s, t => by cases t <;> simp [Signature.same, Signature.same_iff s]

/-- The comparison of lists decides equality. -/
theorem Signature.sameAll_iff :
    ∀ xs ys : List Signature, Signature.sameAll xs ys = true ↔ xs = ys
  | [], ys => by cases ys <;> simp [Signature.sameAll]
  | x :: xs, ys => by
    cases ys <;> simp [Signature.sameAll, Signature.same_iff x, Signature.sameAll_iff xs]

end

instance : DecidableEq Signature := fun s t => decidable_of_iff _ (Signature.same_iff s t)

/-! ## Bytes -/

mutual

/-- Writes a signature: a tag, then its parts. -/
def Signature.emit : Signature → Emit Bytes
  | .named name arguments => do
    let own ← emitName name
    return 0x01 :: own ++ count arguments.length ++ (← Signature.emitSequence arguments)
  | .typeParameter index => return 0x02 :: word32 index
  | .methodParameter index => return 0x03 :: word32 index
  | .array element rank => do return 0x04 :: (← element.emit) ++ word32 rank
  | .byRef target => do return 0x05 :: (← target.emit)
  | .pointer target => do return 0x06 :: (← target.emit)

/-- Writes signatures one after the other. -/
def Signature.emitSequence : List Signature → Emit Bytes
  | [] => return []
  | s :: rest => do return (← s.emit) ++ (← Signature.emitSequence rest)

end

namespace Signature

/-- Writes signatures behind their number. -/
def emitMany (signatures : List Signature) : Emit Bytes := do
  return count signatures.length ++ (← emitSequence signatures)

/-- Reads a signature of at most the given depth. -/
def decodeWithin (p : Pool) : Nat → Decoder DecodeError Signature
  | 0 => Decoder.endOfInput
  | depth + 1 => do
    let offset ← Decoder.position
    let tag ← Decoder.word8
    match tag.toNat with
    | 0x01 => return .named (← decodeName p) (← Decoder.counted (decodeWithin p depth))
    | 0x02 => return .typeParameter (← Decoder.word32)
    | 0x03 => return .methodParameter (← Decoder.word32)
    | 0x04 => return .array (← decodeWithin p depth) (← Decoder.word32)
    | 0x05 => return .byRef (← decodeWithin p depth)
    | 0x06 => return .pointer (← decodeWithin p depth)
    | _ => throw (.invalidTag tag offset)

/-- Reads a signature. -/
def decode (p : Pool) : Decoder DecodeError Signature :=
  Decoder.bounded (decodeWithin p)

/-- Reads signatures behind their number. -/
def decodeMany (p : Pool) : Decoder DecodeError (List Signature) :=
  Decoder.counted (decode p)

end Signature

/-- A member by declaring type, name and signature. -/
structure MemberSignature where
  declaringType : Signature
  name : String
  parameters : List Signature
  returnType : Signature
deriving DecidableEq, Repr, Inhabited

namespace MemberSignature

/-- The text of a member signature. -/
def text (m : MemberSignature) : String :=
  m.returnType.text ++ " " ++ m.declaringType.text ++ "::" ++ m.name
    ++ "(" ++ ",".intercalate (m.parameters.map Signature.text) ++ ")"

/-- Writes a member signature. -/
def emit (m : MemberSignature) : Emit Bytes := do
  return (← m.declaringType.emit) ++ (← emitName m.name)
    ++ (← Signature.emitMany m.parameters) ++ (← m.returnType.emit)

/-- Reads a member signature. -/
def decode (p : Pool) : Decoder DecodeError MemberSignature := do
  let declaringType ← Signature.decode p
  let name ← decodeName p
  let parameters ← Signature.decodeMany p
  let returnType ← Signature.decode p
  return { declaringType, name, parameters, returnType }

end MemberSignature

end ScriptCompiler.Metadata
