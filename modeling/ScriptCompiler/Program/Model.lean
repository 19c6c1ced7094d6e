import ScriptCompiler.Source.Tree

/-!
# The program being compiled

Type and member definitions of the program, in two lists addressed by position, and an index of
full names.  A program grows by three operations: `addType?`, `addMember?` and `addAccessor?`.
Each refuses a definition that refers to a type or member the program does not have, so a nested
type always comes after the type that encloses it.

Functions that look a definition up answer `none` for an id outside the program.
-/

namespace ScriptCompiler

/-- A type or a member of the program. -/
inductive Entity where
  | type (id : TypeId)
  | member (id : MemberId)
deriving DecidableEq, Repr, Inhabited

/-- The kind of a type definition. -/
inductive TypeKind where
  | classType | structType | interfaceType | enumType | delegateType
deriving DecidableEq, Repr, Inhabited

namespace TypeKind

/-- Every kind of type, in order of declaration. -/
def all : List TypeKind :=
  [classType, structType, interfaceType, enumType, delegateType]

/-- The keyword for the kind. -/
def name : TypeKind → String
  | classType => "class"
  | structType => "struct"
  | interfaceType => "interface"
  | enumType => "enum"
  | delegateType => "delegate"

end TypeKind

/-- A type definition. -/
structure TypeDefinition where
  /-- Dotted path in front of the name; empty for nested types. -/
  path : String := ""
  /-- Simple name without arity. -/
  name : String := ""
  /-- Number of type parameters of its own. -/
  typeParameterCount : Nat := 0
  kind : TypeKind := .classType
  /-- The enclosing type of a nested type. -/
  declaringType : Option TypeId := none
  /-- Members in order of declaration. -/
  members : List MemberId := []
deriving DecidableEq, Repr, Inhabited

namespace TypeDefinition

/-- The definition as a type nested in `outer`; a nested type has no path of its own. -/
def nestedIn (d : TypeDefinition) (outer : TypeId) : TypeDefinition :=
  { d with declaringType := some outer, path := "" }

/-- The name as metadata stores it: the simple name with its arity behind a backtick. -/
def metadataName (d : TypeDefinition) : String :=
  if d.typeParameterCount = 0 then d.name else d.name ++ "`" ++ toString d.typeParameterCount

end TypeDefinition

/-- The part of an accessor in its property or event. -/
inductive AccessorRole where
  | getter | setter | adder | remover
deriving DecidableEq, Repr, Inhabited

namespace AccessorRole

/-- Every role, in order of declaration. -/
def all : List AccessorRole :=
  [getter, setter, adder, remover]

/-- The word for the role in messages. -/
def text : AccessorRole → String
  | getter => "getter"
  | setter => "setter"
  | adder => "adder"
  | remover => "remover"

/-- What stands before the owner's name in the name of an accessor. -/
def lead : AccessorRole → String
  | getter => "get_"
  | setter => "set_"
  | adder => "add_"
  | remover => "remove_"

end AccessorRole

/-- The kind of a member definition. -/
inductive MemberKind where
  | field
  /-- A property without parameters. -/
  | property
  /-- A property with parameters. -/
  | indexer
  | event
  | method
  | constructor
  /-- An operator or conversion defined by the user. -/
  | operator
  /-- An accessor of a property, indexer or event. -/
  | accessor (owner : MemberId) (role : AccessorRole)
deriving DecidableEq, Repr, Inhabited

/-- Every kind except those of accessors, in order of declaration. -/
def MemberKind.allPlain : List MemberKind :=
  [.field, .property, .indexer, .event, .method, .constructor, .operator]

/-- How an argument is passed to a parameter. -/
inductive ParameterMode where
  | value | ref | out | params
deriving DecidableEq, Repr, Inhabited

/-- Every mode, in order of declaration. -/
def ParameterMode.all : List ParameterMode :=
  [.value, .ref, .out, .params]

/-- A parameter; its type is the element type if it is passed by reference. -/
structure Parameter where
  name : String
  type : TypeRef
  mode : ParameterMode := .value
deriving DecidableEq, Repr, Inhabited

/-- The interface member that a member explicitly implements. -/
structure ExplicitImplementation where
  interface : TypeRef
  memberName : String
deriving DecidableEq, Repr, Inhabited

/-- A member definition. -/
structure Member where
  /-- Simple name as in the source. -/
  name : String := ""
  declaringType : TypeId := default
  kind : MemberKind := .field
  parameters : List Parameter := []
  /-- Type of the value that the member yields or holds. -/
  returnType : TypeRef := .void
  isStatic : Bool := false
  /-- Number of type parameters of a generic method. -/
  typeParameterCount : Nat := 0
  explicitImplementation : Option ExplicitImplementation := none
deriving DecidableEq, Repr, Inhabited

namespace Member

/-- Whether the member is a conversion operator. -/
def isConversion (m : Member) : Bool :=
  m.kind == .operator && (m.name == "op_Implicit" || m.name == "op_Explicit")

/-- Whether messages write the parameters behind the name even if there are none. -/
def isInvocable (m : Member) : Bool :=
  m.kind == .method || m.kind == .constructor || m.kind == .operator

/-- The accessor of this member for the given role; all but the getter take the value as their
last parameter and yield nothing. -/
def accessorFor (m : Member) (owner : MemberId) (role : AccessorRole) : Member where
  name := role.lead ++ m.name
  declaringType := m.declaringType
  kind := .accessor owner role
  parameters :=
    if role = .getter then m.parameters
    else m.parameters ++ [{ name := "value", type := m.returnType }]
  returnType := if role = .getter then m.returnType else .void
  isStatic := m.isStatic

end Member

/-- The program being compiled. -/
structure Program where
  types : List TypeDefinition := []
  members : List Member := []
  /-- Full names with the types that carry them, the newest first. -/
  names : List (String × TypeId) := []
deriving Repr, Inhabited

namespace Program

/-- A type definition. -/
def type? (p : Program) (id : TypeId) : Option TypeDefinition :=
  p.types[id.index]?

/-- A member definition. -/
def member? (p : Program) (id : MemberId) : Option Member :=
  p.members[id.index]?

/-- A name behind its path. -/
def qualify (path name : String) : String :=
  if path.isEmpty then name else path ++ "." ++ name

/-- The full name of a type whose chain of enclosing types has at most the given length: the path
of the outermost type, then the names joined by `+`. -/
def fullNameWithin (p : Program) : Nat → TypeId → Option String
  | 0, _ => none
  | depth + 1, id => do
    let d ← p.type? id
    match d.declaringType with
    | some outer => return (← p.fullNameWithin depth outer) ++ "+" ++ d.metadataName
    | none => return qualify d.path d.metadataName

/-- The full name of a type. -/
def fullName? (p : Program) (id : TypeId) : Option String :=
  p.fullNameWithin p.types.length id

/-- Adds a type after all others. -/
def addType? (p : Program) (d : TypeDefinition) : Option (Program × TypeId) := do
  let id : TypeId := ⟨p.types.length⟩
  let grown : Program := { p with types := p.types ++ [d] }
  if let some outer := d.declaringType then
    let _ ← p.type? outer
  let name ← grown.fullName? id
  return ({ grown with names := (name, id) :: p.names }, id)

/-- Adds a member after all others and to the list of its declaring type. -/
def addMember? (p : Program) (m : Member) : Option (Program × MemberId) := do
  let id : MemberId := ⟨p.members.length⟩
  let d ← p.type? m.declaringType
  let types := p.types.set m.declaringType.index { d with members := d.members ++ [id] }
  return ({ p with types, members := p.members ++ [m] }, id)

/-- Adds an accessor of a property, indexer or event. -/
def addAccessor? (p : Program) (owner : MemberId) (role : AccessorRole) :
    Option (Program × MemberId) := do
  p.addMember? ((← p.member? owner).accessorFor owner role)

/-- The type with the given full name, the newest one if there are several. -/
def findType? (p : Program) (name : String) : Option TypeId :=
  p.names.lookup name

/-- The members of a type with the given simple name, in order of declaration. -/
def membersNamed? (p : Program) (id : TypeId) (name : String) : Option (List MemberId) := do
  let d ← p.type? id
  return d.members.filter fun m => (p.member? m).any (·.name == name)

/-- The first accessor with the given owner and role in the type of the owner. -/
def accessor? (p : Program) (owner : MemberId) (role : AccessorRole) :
    Option (Option MemberId) := do
  let d ← p.type? (← p.member? owner).declaringType
  return d.members.find? fun m => (p.member? m).any (·.kind == .accessor owner role)

/-- A member as messages show it, where `owner` is the full name of its type. -/
def describeMember? (p : Program) (owner : String) (m : Member) : Option String :=
  match m.kind with
  | .accessor owned role => do
    return owner ++ "." ++ (← p.member? owned).name ++ " " ++ role.text
  | _ =>
    if m.parameters.isEmpty && !m.isInvocable then some (owner ++ "." ++ m.name)
    else
      let types := m.parameters.map (·.type.text)
      some (owner ++ "." ++ m.name ++ "(" ++ ",".intercalate types ++ ")")

/-- An entity as messages show it. -/
def describe? (p : Program) : Entity → Option String
  | .type id => p.fullName? id
  | .member id => do
    let m ← p.member? id
    p.describeMember? (← p.fullName? m.declaringType) m

end Program

end ScriptCompiler
