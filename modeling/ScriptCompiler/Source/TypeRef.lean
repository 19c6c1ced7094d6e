/-!
# Type references

A type is referred to by its structure: a named type by its full name and its arguments, a type
parameter by the kind of definition that declares it and its position there.  Two definitions that
call their first parameter by different names therefore refer to it alike.
-/

namespace ScriptCompiler

/-- The kind of generic definition that declares a type parameter. -/
inductive ParameterOwner where
  | type | method
deriving DecidableEq, Repr, Inhabited

/-- A structural reference to a type. -/
inductive TypeRef where
  /-- A named type with its arguments; the full name carries the arity suffix. -/
  | named (fullName : String) (arguments : List TypeRef)
  /-- A type parameter by position. -/
  | parameter (owner : ParameterOwner) (index : UInt32)
  | array (element : TypeRef) (rank : UInt32)
  /-- A managed reference. -/
  | byRef (target : TypeRef)
  /-- An unmanaged pointer. -/
  | pointer (target : TypeRef)
deriving Repr, Inhabited

/-- So many commas. -/
def commas : Nat → String
  | 0 => ""
  | n + 1 => "," ++ commas n

namespace TypeRef

/-- A named type without arguments. -/
def simple (fullName : String) : TypeRef :=
  .named fullName []

/-- The type of a member that yields nothing. -/
def void : TypeRef := simple "System.Void"

/-- The 32-bit integers. -/
def int32 : TypeRef := simple "System.Int32"

/-- The texts. -/
def string : TypeRef := simple "System.String"

/-- The full name of a named type. -/
def fullName? : TypeRef → Option String
  | .named name _ => some name
  | _ => none

/-- Whether this is the named type `name` without arguments. -/
def isNamed (name : String) : TypeRef → Bool
  | .named n [] => n == name
  | _ => false

/-- Whether this is the type of 32-bit integers. -/
def isInt32 (t : TypeRef) : Bool :=
  t.isNamed "System.Int32"

/-- Whether this is the type of a member that yields nothing. -/
def isVoid (t : TypeRef) : Bool :=
  t.isNamed "System.Void"

end TypeRef

mutual

/-- The text of a type reference. -/
def TypeRef.text : TypeRef → String
  | .named name [] => name
  | .named name (first :: rest) => name ++ "<" ++ first.text ++ TypeRef.furtherText rest ++ ">"
  | .parameter .type index => "!" ++ toString index.toNat
  | .parameter .method index => "!!" ++ toString index.toNat
  | .array element rank => element.text ++ "[" ++ commas (rank.toNat - 1) ++ "]"
  | .byRef target => target.text ++ "&"
  | .pointer target => target.text ++ "*"

/-- The text of further arguments, each behind a comma. -/
def TypeRef.furtherText : List TypeRef → String
  | [] => ""
  | t :: rest => "," ++ t.text ++ TypeRef.furtherText rest

end

mutual

/-- Whether two type references are the same. -/
def TypeRef.same : TypeRef → TypeRef → Bool
  | .named n xs, .named m ys => n == m && TypeRef.sameAll xs ys
  | .parameter o i, .parameter p j => o == p && i == j
  | .array s r, .array t q => s.same t && r == q
  | .byRef s, .byRef t => s.same t
  | .pointer s, .pointer t => s.same t
  | _, _ => false

/-- Whether two lists of type references are the same. -/
def TypeRef.sameAll : List TypeRef → List TypeRef → Bool
  | [], [] => true
  | s :: ss, t :: ts => s.same t && TypeRef.sameAll ss ts
  | _, _ => false

end

mutual

/-- The comparison decides equality. -/
theorem TypeRef.same_iff : ∀ s t : TypeRef, s.same t = true ↔ s = t
  | .named n xs, t => by
    cases t <;> simp [TypeRef.same, TypeRef.sameAll_iff xs]
  | .parameter o i, t => by cases t <;> simp [TypeRef.same]
  | .array s r, t => by cases t <;> simp [TypeRef.same, TypeRef.same_iff s]
  | .byRef s, t => by cases t <;> simp [TypeRef.same, TypeRef.same_iff s]
  | .pointer s, t => by cases t <;> simp [TypeRef.same, TypeRef.same_iff s]

/-- The comparison of lists decides equality. -/
theorem TypeRef.sameAll_iff : ∀ xs ys : List TypeRef, TypeRef.sameAll xs ys = true ↔ xs = ys
  | [], ys => by cases ys <;> simp [TypeRef.sameAll]
  | x :: xs, ys => by
    cases ys <;> simp [TypeRef.sameAll, TypeRef.same_iff x, TypeRef.sameAll_iff xs]

end

instance : DecidableEq TypeRef := fun s t => decidable_of_iff _ (TypeRef.same_iff s t)

end ScriptCompiler
