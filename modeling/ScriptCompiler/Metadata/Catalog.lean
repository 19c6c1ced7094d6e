import ScriptCompiler.Metadata.Module

/-!
# Metadata by name

A catalog is a module with an index of the full names of its types.  Handles address the entries
that can carry attributes.  Their positions have no bound; those of 32 bits are the same as long as
no list of the module is longer than `2 ^ 32`.
-/

namespace ScriptCompiler.Metadata

/-- Addresses a type, or a member by its type and its position in a list of it. -/
inductive Handle where
  | type (type : Nat)
  | field (type index : Nat)
  | method (type index : Nat)
  | property (type index : Nat)
  | event (type index : Nat)
deriving DecidableEq, Repr, Inhabited

/-- Position of the type that owns the entry. -/
def Handle.owner : Handle → Nat
  | .type t | .field t _ | .method t _ | .property t _ | .event t _ => t

/-- A module with an index of its types. -/
structure Catalog where
  module : Module := {}
  /-- Full names with positions, the last type first. -/
  names : List (String × Nat) := []
deriving Repr, Inhabited

namespace Catalog

/-- Indexes a module.  A type without full name has no entry. -/
def ofModule (m : Module) : Catalog where
  module := m
  names := ((List.range m.types.length).filterMap fun i => (m.fullName? i).map (·, i)).reverse

/-- Reads and indexes a module. -/
def ofBytes (bytes : Binary.Bytes) : Except ModuleError Catalog :=
  return ofModule (← Module.decode bytes)

/-- Position of the type with the given full name, the last one if there are several. -/
def findType? (c : Catalog) (name : String) : Option Nat :=
  c.names.lookup name

/-- The type at a position. -/
def type? (c : Catalog) (i : Nat) : Option TypeEntry :=
  c.module.types[i]?

/-- The attributes of an entry; there are none outside the tables. -/
def attributes (c : Catalog) (h : Handle) : List AttributeEntry :=
  match c.type? h.owner with
  | none => []
  | some t =>
    match h with
    | .type _ => t.attributes
    | .field _ i => (t.fields[i]?).elim [] (·.attributes)
    | .method _ i => (t.methods[i]?).elim [] (·.attributes)
    | .property _ i => (t.properties[i]?).elim [] (·.attributes)
    | .event _ i => (t.events[i]?).elim [] (·.attributes)

end Catalog

end ScriptCompiler.Metadata
