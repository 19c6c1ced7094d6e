import ScriptCompiler.Resolution.Match

/-!
# From the program to its metadata

A type is found by its full name, a member as the only matching entry of its declaring type, and
an accessor through the property or event that owns it.  What was found is remembered, also when a
later step fails.
-/

namespace ScriptCompiler.Resolution

open Metadata

/-- Why an entity has no handle. -/
inductive ResolveError where
  | typeNotFound (name : String)
  | memberNotFound (member typeName : String)
  | ambiguousMatch (member : String) (candidates : Nat)
  | accessorNotFound (accessor : String)
  /-- The entity is not in the program. -/
  | unknownEntity
deriving DecidableEq, Repr, Inhabited

/-- The text of the error. -/
def ResolveError.message : ResolveError → String
  | .typeNotFound name => "Type '" ++ name ++ "' not found in metadata"
  | .memberNotFound member typeName =>
    "Member '" ++ member ++ "' not found in metadata type '" ++ typeName ++ "'"
  | .ambiguousMatch member candidates =>
    "Member '" ++ member ++ "' matches " ++ toString candidates ++ " metadata members"
  | .accessorNotFound accessor => "Accessor '" ++ accessor ++ "' not found in metadata"
  | .unknownEntity => "The entity is not in the program"

/-- The two sides that are matched. -/
structure Setting where
  program : Program := {}
  catalog : Catalog := {}
deriving Repr, Inhabited

/-- Handles found so far, the newest first. -/
abbrev HandleCache := List (Entity × Handle)

/-- A step of resolution. -/
abbrev Resolve := EStateM ResolveError HandleCache

/-- The value of a lookup in the program. -/
def known {α : Type} : Option α → Resolve α
  | some a => return a
  | none => throw .unknownEntity

/-- The handle of an entity, computed unless it was found before. -/
def cached (e : Entity) (compute : Resolve Handle) : Resolve Handle := do
  match (← get).lookup e with
  | some h => return h
  | none =>
    let h ← compute
    modify ((e, h) :: ·)
    return h

/-- Position of a type. -/
def resolveType (s : Setting) (id : TypeId) : Resolve Nat := do
  let h ← cached (.type id) do
    let name ← known (s.program.fullName? id)
    match s.catalog.findType? name with
    | some i => return .type i
    | none => throw (.typeNotFound name)
  return h.owner

/-- The entry at a position found for a type. -/
def typeEntry (s : Setting) (i : Nat) (id : TypeId) : Resolve TypeEntry := do
  match s.catalog.type? i with
  | some t => return t
  | none => throw (.typeNotFound (← known (s.program.fullName? id)))

/-- The only candidate for a member. -/
def single (s : Setting) (id : MemberId) (m : Member) : List Nat → Resolve Nat
  | [i] => return i
  | [] => do
    throw (.memberNotFound (← known (s.program.describe? (.member id)))
      (← known (s.program.fullName? m.declaringType)))
  | many => do
    throw (.ambiguousMatch (← known (s.program.describe? (.member id))) many.length)

/-- The handle of a member that is not an accessor. -/
def resolveDeclared (s : Setting) (id : MemberId) (m : Member) : Resolve Handle := do
  let i ← resolveType s m.declaringType
  let t ← typeEntry s i m.declaringType
  return memberHandle m.kind i (← single s id m (candidates t m))

/-- The handle of an accessor, given that of its owner. -/
def resolveAccessor (s : Setting) (id owner : MemberId) (role : AccessorRole) (h : Handle) :
    Resolve Handle := do
  let m ← known (s.program.member? owner)
  let t ← typeEntry s h.owner m.declaringType
  match accessorIndex? t h role with
  | some i => return .method h.owner i.toNat
  | none => throw (.accessorNotFound (← known (s.program.describe? (.member id))))

/-- The handle of a member whose chain of owners has at most the given length. -/
def resolveMemberWithin (s : Setting) : Nat → MemberId → Resolve Handle
  | 0, _ => throw .unknownEntity
  | depth + 1, id => cached (.member id) do
    let m ← known (s.program.member? id)
    match m.kind with
    | .accessor owner role => do
      let h ← resolveMemberWithin s depth owner
      resolveAccessor s id owner role h
    | _ => resolveDeclared s id m

/-- The handle of an entity. -/
def resolve (s : Setting) : Entity → Resolve Handle
  | .type id => return .type (← resolveType s id)
  | .member id => resolveMemberWithin s s.program.members.length id

end ScriptCompiler.Resolution
