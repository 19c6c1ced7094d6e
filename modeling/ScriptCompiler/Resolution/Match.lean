import ScriptCompiler.Metadata.Catalog
import ScriptCompiler.Program.Model
import ScriptCompiler.Resolution.ExplicitName

/-!
# Which entry belongs to a member

The program and its metadata are built independently, so members are matched by what they are: by
name, static flag, arity and parameter types, a conversion also by its return type, an explicit
implementation by its stored name and the interface member it is recorded to implement, and an
indexer by its parameters alone.
-/

namespace ScriptCompiler.Resolution

open Metadata

/-- Whether signatures spell the types of parameters; a parameter passed by reference has a
signature that says so. -/
def parametersMatch : List Signature → List Parameter → Bool
  | [], [] => true
  | s :: signatures, q :: parameters =>
    (match q.mode, s with
      | .ref, .byRef target | .out, .byRef target => target.matches q.type
      | .ref, _ | .out, _ => false
      | .value, s | .params, s => s.matches q.type) &&
      parametersMatch signatures parameters
  | _, _ => false

/-- Whether a stored interface name spells the given interface. -/
def interfaceMatches (stored : String) (interface : TypeRef) : Bool :=
  interface.fullName?.any fun name => normalizeInterface stored == normalizeInterface name

/-- Whether a member may be stored under the given name. -/
def nameMatches (stored : String) (m : Member) : Bool :=
  match m.explicitImplementation with
  | none => stored == m.name
  | some e =>
    (splitExplicitName stored).any fun (interface, member) =>
      member == e.memberName && interfaceMatches interface e.interface

/-- Whether the record of implemented members allows the member to be an explicit implementation;
without a record, the name alone decides. -/
def implementedConfirms (implemented : List MemberSignature) (m : Member) (compareName : Bool) :
    Bool :=
  match m.explicitImplementation with
  | none => true
  | some e =>
    implemented.isEmpty || implemented.any fun i =>
      i.declaringType.matches e.interface && (!compareName || i.name == e.memberName)

/-- Whether one of the accessors confirms the explicit implementation of a property or event. -/
def accessorsConfirm (t : TypeEntry) (accessors : List UInt32) (m : Member) : Bool :=
  let methods := accessors.filterMap fun i => t.methods[i.toNat]?
  m.explicitImplementation.isNone || methods.isEmpty ||
    methods.any fun method => implementedConfirms method.implemented m false

/-- The name under which a method, operator or constructor is stored if it implements no interface
member explicitly. -/
def storedName (m : Member) : String :=
  if m.kind = .constructor then if m.isStatic then ".cctor" else ".ctor" else m.name

/-- Whether a field entry belongs to the member. -/
def fieldMatches (m : Member) (f : FieldEntry) : Bool :=
  f.name == m.name

/-- Whether a method entry belongs to the member. -/
def methodMatches (m : Member) (e : MethodEntry) : Bool :=
  (if m.explicitImplementation.isSome then nameMatches e.name m else e.name == storedName m)
    && e.genericParameterCount.toNat == m.typeParameterCount
    && e.isStatic == m.isStatic
    && parametersMatch e.parameters m.parameters
    && (!m.isConversion || e.returnType.matches m.returnType)
    && implementedConfirms e.implemented m true

/-- Whether a property entry of the type belongs to the member. -/
def propertyMatches (t : TypeEntry) (m : Member) (q : PropertyEntry) : Bool :=
  (if m.kind == .indexer && m.explicitImplementation.isNone then
      !q.parameters.isEmpty && (splitExplicitName q.name).isNone
    else nameMatches q.name m)
    && parametersMatch q.parameters m.parameters
    && accessorsConfirm t (q.getter.toList ++ q.setter.toList) m

/-- Whether an event entry of the type belongs to the member. -/
def eventMatches (t : TypeEntry) (m : Member) (e : EventEntry) : Bool :=
  nameMatches e.name m && accessorsConfirm t (e.adder.toList ++ e.remover.toList) m

/-- The positions at which a test holds. -/
def positions {α : Type} (test : α → Bool) (items : List α) : List Nat :=
  (items.zipIdx.filter fun (a, _) => test a).map (·.2)

/-- The positions of all entries of the type that belong to the member, in the table of its kind;
an accessor has none. -/
def candidates (t : TypeEntry) (m : Member) : List Nat :=
  match m.kind with
  | .field => positions (fieldMatches m) t.fields
  | .method | .operator | .constructor => positions (methodMatches m) t.methods
  | .property | .indexer => positions (propertyMatches t m) t.properties
  | .event => positions (eventMatches t m) t.events
  | .accessor .. => []

/-- The handle of a member of the given kind at a position. -/
def memberHandle (kind : MemberKind) (type index : Nat) : Handle :=
  match kind with
  | .field => .field type index
  | .property | .indexer => .property type index
  | .event => .event type index
  | .method | .operator | .constructor | .accessor .. => .method type index

/-- Position of the method that plays the given role for a property or event. -/
def accessorIndex? (t : TypeEntry) (owner : Handle) (role : AccessorRole) : Option UInt32 :=
  match owner, role with
  | .property _ i, .getter => (t.properties[i]?).bind (·.getter)
  | .property _ i, .setter => (t.properties[i]?).bind (·.setter)
  | .event _ i, .adder => (t.events[i]?).bind (·.adder)
  | .event _ i, .remover => (t.events[i]?).bind (·.remover)
  | _, _ => none

end ScriptCompiler.Resolution
