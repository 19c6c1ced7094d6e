import ScriptCompiler.Program.Model
import ScriptCompiler.Text.LowerCase
import ScriptCompiler.Text.Quoted

/-!
# Script names

How types and members of the program are spelled in the script.  By default a type keeps its
dotted name, with nested types joined by `$`; members open in lower case, and overloads after the
first get a number behind `$`; properties, indexers and events go through accessor methods; a
constructor after the first one is a named function.  Single entries can be overridden.
-/

namespace ScriptCompiler

/-- How a member is realised in the script. -/
inductive MemberForm where
  /-- `target.name` -/
  | field (name : String)
  /-- `target.name(arguments)` -/
  | method (name : String)
  /-- A property or indexer behind two methods. -/
  | property (getter setter : String)
  /-- A property kept in a field. -/
  | fieldProperty (name : String)
  /-- An indexer that is `target[index]` of the script. -/
  | nativeIndexer
  /-- An event behind two methods. -/
  | event (adder remover : String)
  /-- `new T(arguments)`, or `new T.name(arguments)` if it has a name. -/
  | constructor (name : Option String)
deriving DecidableEq, Repr, Inhabited

/-- A form as messages show it. -/
def MemberForm.shown : MemberForm → String
  | .field name => "Field \x7b name: " ++ Text.shown name ++ " \x7d"
  | .method name => "Method \x7b name: " ++ Text.shown name ++ " \x7d"
  | .property getter setter =>
    "Property \x7b getter: " ++ Text.shown getter ++ ", setter: " ++ Text.shown setter ++ " \x7d"
  | .fieldProperty name => "FieldProperty \x7b name: " ++ Text.shown name ++ " \x7d"
  | .nativeIndexer => "NativeIndexer"
  | .event adder remover =>
    "Event \x7b adder: " ++ Text.shown adder ++ ", remover: " ++ Text.shown remover ++ " \x7d"
  | .constructor none => "Constructor \x7b name: None \x7d"
  | .constructor (some name) => "Constructor \x7b name: Some(" ++ Text.shown name ++ ") \x7d"

/-- A name with its first character in lower case. -/
def lowerCamel (name : String) : String :=
  match name.toList with
  | [] => ""
  | first :: rest => String.ofList (Text.lowerCase first ++ rest)

/-- The default convention with its overrides, the newest first. -/
structure Naming where
  typeNames : List (TypeId × String) := []
  memberForms : List (MemberId × MemberForm) := []
deriving Repr, Inhabited

namespace Naming

/-- Spells a type as `name` from now on. -/
def overrideType (n : Naming) (id : TypeId) (name : String) : Naming :=
  { n with typeNames := (id, name) :: n.typeNames }

/-- Realises a member as `form` from now on. -/
def overrideMember (n : Naming) (id : MemberId) (form : MemberForm) : Naming :=
  { n with memberForms := (id, form) :: n.memberForms }

/-- The script name of a type whose chain of enclosing types has at most the given length. -/
def typeNameWithin (n : Naming) (p : Program) : Nat → TypeId → Option String
  | 0, _ => none
  | depth + 1, id =>
    match n.typeNames.lookup id with
    | some name => some name
    | none => do
      let d ← p.type? id
      let simple :=
        if d.typeParameterCount = 0 then d.name
        else d.name ++ "$" ++ toString d.typeParameterCount
      match d.declaringType with
      | some outer => return (← n.typeNameWithin p depth outer) ++ "$" ++ simple
      | none => return Program.qualify d.path simple

/-- The dotted script name of a type. -/
def typeName? (n : Naming) (p : Program) (id : TypeId) : Option String :=
  n.typeNameWithin p (p.types.length + 1) id

/-- Position of a member among the members of its type with the same name and kind. -/
def overloadIndex (p : Program) (id : MemberId) (m : Member) : Nat :=
  let named := ((p.membersNamed? m.declaringType m.name).getD []).filter fun other =>
    (p.member? other).any (·.kind == m.kind)
  (named.idxOf? id).getD 0

/-- A name with the number of its overload behind `$`; the first overload has none. -/
def numbered (name : String) (overload : Nat) : String :=
  if overload = 0 then name else name ++ "$" ++ toString overload

/-- How a member is realised unless it is overridden. -/
def defaultForm (p : Program) (id : MemberId) (m : Member) : MemberForm :=
  match m.kind with
  | .field => .field (lowerCamel m.name)
  | .property => .property ("get_" ++ m.name) ("set_" ++ m.name)
  | .indexer => .property "get_item" "set_item"
  | .event => .event ("add_" ++ m.name) ("remove_" ++ m.name)
  | .constructor =>
    let overload := overloadIndex p id m
    .constructor (if overload = 0 then none else some ("$ctor" ++ toString overload))
  | .method | .operator | .accessor .. =>
    .method (numbered (lowerCamel m.name) (overloadIndex p id m))

/-- How a member is realised. -/
def form? (n : Naming) (p : Program) (id : MemberId) : Option MemberForm :=
  match n.memberForms.lookup id with
  | some form => some form
  | none => (p.member? id).map (defaultForm p id)

end Naming

end ScriptCompiler
