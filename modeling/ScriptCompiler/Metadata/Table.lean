import ScriptCompiler.Metadata.Signature

/-!
# Metadata tables

A type entry holds its members directly; a member is addressed by the position of its type and its
position in the list of that type.  Properties and events refer to their accessors by position in
the methods of the type, and a type is only read if all of these positions are inside the list.
-/

namespace ScriptCompiler.Metadata

open Binary

/-- An attribute on an entry: the constructor that was called, and its arguments in bytes. -/
structure AttributeEntry where
  constructor : MemberSignature
  blob : Bytes := []
deriving DecidableEq, Repr, Inhabited

namespace AttributeEntry

/-- The full name of the attribute's type. -/
def typeName (a : AttributeEntry) : String :=
  a.constructor.declaringType.fullName?.getD ""

/-- Writes an attribute. -/
def emit (a : AttributeEntry) : Emit Bytes := do
  return (← a.constructor.emit) ++ Binary.blob a.blob

/-- Reads an attribute. -/
def decode (p : Pool) : Decoder DecodeError AttributeEntry := do
  let constructor ← MemberSignature.decode p
  let blob ← Decoder.blob
  return { constructor, blob }

end AttributeEntry

/-- Writes attributes behind their number. -/
def emitAttributes (attributes : List AttributeEntry) : Emit Bytes :=
  emitList AttributeEntry.emit attributes

/-- Reads attributes behind their number. -/
def decodeAttributes (p : Pool) : Decoder DecodeError (List AttributeEntry) :=
  Decoder.counted (AttributeEntry.decode p)

/-- A field. -/
structure FieldEntry where
  name : String
  type : Signature
  flags : UInt32 := 0
  attributes : List AttributeEntry := []
deriving DecidableEq, Repr, Inhabited

namespace FieldEntry

/-- Writes a field. -/
def emit (f : FieldEntry) : Emit Bytes := do
  return (← emitName f.name) ++ (← f.type.emit) ++ word32 f.flags ++ (← emitAttributes f.attributes)

/-- Reads a field. -/
def decode (p : Pool) : Decoder DecodeError FieldEntry := do
  let name ← decodeName p
  let type ← Signature.decode p
  let flags ← Decoder.word32
  let attributes ← decodeAttributes p
  return { name, type, flags, attributes }

end FieldEntry

/-- A method, constructor, operator or accessor.  An explicit implementation is named by the
interface and the member, with a dot between them. -/
structure MethodEntry where
  name : String
  parameters : List Signature := []
  returnType : Signature := .simple "System.Void"
  genericParameterCount : UInt32 := 0
  flags : UInt32 := 0
  /-- Interface members that the method explicitly implements. -/
  implemented : List MemberSignature := []
  attributes : List AttributeEntry := []
deriving DecidableEq, Repr, Inhabited

namespace MethodEntry

/-- Whether the method is static: the lowest flag. -/
def isStatic (m : MethodEntry) : Bool :=
  m.flags &&& 1 != 0

/-- Writes a method. -/
def emit (m : MethodEntry) : Emit Bytes := do
  return (← emitName m.name) ++ (← Signature.emitMany m.parameters) ++ (← m.returnType.emit)
    ++ word32 m.genericParameterCount ++ word32 m.flags
    ++ (← emitList MemberSignature.emit m.implemented) ++ (← emitAttributes m.attributes)

/-- Reads a method. -/
def decode (p : Pool) : Decoder DecodeError MethodEntry := do
  let name ← decodeName p
  let parameters ← Signature.decodeMany p
  let returnType ← Signature.decode p
  let genericParameterCount ← Decoder.word32
  let flags ← Decoder.word32
  let implemented ← Decoder.counted (MemberSignature.decode p)
  let attributes ← decodeAttributes p
  return { name, parameters, returnType, genericParameterCount, flags, implemented, attributes }

end MethodEntry

/-- A property or indexer; a property has no parameters. -/
structure PropertyEntry where
  name : String
  type : Signature
  parameters : List Signature := []
  /-- Position of the getter among the methods of the type. -/
  getter : Option UInt32 := none
  /-- Position of the setter among the methods of the type. -/
  setter : Option UInt32 := none
  attributes : List AttributeEntry := []
deriving DecidableEq, Repr, Inhabited

namespace PropertyEntry

/-- Writes a property. -/
def emit (q : PropertyEntry) : Emit Bytes := do
  return (← emitName q.name) ++ (← q.type.emit) ++ (← Signature.emitMany q.parameters)
    ++ optionalIndex q.getter ++ optionalIndex q.setter ++ (← emitAttributes q.attributes)

/-- Reads a property. -/
def decode (p : Pool) : Decoder DecodeError PropertyEntry := do
  let name ← decodeName p
  let type ← Signature.decode p
  let parameters ← Signature.decodeMany p
  let getter ← Decoder.optionalIndex
  let setter ← Decoder.optionalIndex
  let attributes ← decodeAttributes p
  return { name, type, parameters, getter, setter, attributes }

end PropertyEntry

/-- An event. -/
structure EventEntry where
  name : String
  type : Signature
  /-- Position of the adder among the methods of the type. -/
  adder : Option UInt32 := none
  /-- Position of the remover among the methods of the type. -/
  remover : Option UInt32 := none
  attributes : List AttributeEntry := []
deriving DecidableEq, Repr, Inhabited

namespace EventEntry

/-- Writes an event. -/
def emit (e : EventEntry) : Emit Bytes := do
  return (← emitName e.name) ++ (← e.type.emit)
    ++ optionalIndex e.adder ++ optionalIndex e.remover ++ (← emitAttributes e.attributes)

/-- Reads an event. -/
def decode (p : Pool) : Decoder DecodeError EventEntry := do
  let name ← decodeName p
  let type ← Signature.decode p
  let adder ← Decoder.optionalIndex
  let remover ← Decoder.optionalIndex
  let attributes ← decodeAttributes p
  return { name, type, adder, remover, attributes }

end EventEntry

/-- A type. -/
structure TypeEntry where
  /-- Dotted path in front of the name; empty for nested types. -/
  path : String := ""
  /-- Name with its arity suffix. -/
  name : String := ""
  genericParameterCount : UInt32 := 0
  /-- Position of the enclosing type of a nested type. -/
  enclosing : Option UInt32 := none
  flags : UInt32 := 0
  fields : List FieldEntry := []
  methods : List MethodEntry := []
  properties : List PropertyEntry := []
  events : List EventEntry := []
  attributes : List AttributeEntry := []
deriving DecidableEq, Repr, Inhabited

namespace TypeEntry

/-- Writes a type. -/
def emit (t : TypeEntry) : Emit Bytes := do
  return (← emitName t.path) ++ (← emitName t.name)
    ++ word32 t.genericParameterCount ++ optionalIndex t.enclosing ++ word32 t.flags
    ++ (← emitList FieldEntry.emit t.fields) ++ (← emitList MethodEntry.emit t.methods)
    ++ (← emitList PropertyEntry.emit t.properties) ++ (← emitList EventEntry.emit t.events)
    ++ (← emitAttributes t.attributes)

/-- The positions of all accessors: getters and setters, then adders and removers. -/
def accessorIndices (t : TypeEntry) : List UInt32 :=
  (t.properties.flatMap fun q => q.getter.toList ++ q.setter.toList) ++
    t.events.flatMap fun e => e.adder.toList ++ e.remover.toList

/-- The first position of an accessor that is not inside the methods. -/
def missingAccessor? (t : TypeEntry) : Option UInt32 :=
  t.accessorIndices.find? fun i => t.methods.length ≤ i.toNat

/-- Reads a type. -/
def decode (p : Pool) : Decoder DecodeError TypeEntry := do
  let path ← decodeName p
  let name ← decodeName p
  let genericParameterCount ← Decoder.word32
  let enclosing ← Decoder.optionalIndex
  let flags ← Decoder.word32
  let fields ← Decoder.counted (FieldEntry.decode p)
  let methods ← Decoder.counted (MethodEntry.decode p)
  let properties ← Decoder.counted (PropertyEntry.decode p)
  let events ← Decoder.counted (EventEntry.decode p)
  let attributes ← decodeAttributes p
  let entry : TypeEntry :=
    { path, name, genericParameterCount, enclosing, flags, fields, methods, properties, events,
      attributes }
  match entry.missingAccessor? with
  | some index => throw (.indexOutOfRange .methods index methods.length)
  | none => return entry

end TypeEntry

end ScriptCompiler.Metadata
