import ScriptCompiler.Attribute.Record
import ScriptCompiler.Resolution.Resolver

/-!
# Attributes of the program's entities

The attributes of an entity are read from the metadata that was compiled from it.  Entities that
were read once are remembered.
-/

namespace ScriptCompiler

open Attribute (Record BlobError)
open Resolution (Setting Resolve ResolveError HandleCache)

/-- Why the attributes of an entity cannot be read. -/
inductive AttributeError where
  | resolve (error : ResolveError)
  | blob (error : BlobError)
  /-- No constructor of the program fits that of an attribute. -/
  | constructorNotFound (constructor : String)
deriving DecidableEq, Repr, Inhabited

namespace AttributeError

/-- The text of the error. -/
def message : AttributeError → String
  | resolve error => error.message
  | blob error => "Invalid attribute arguments: " ++ error.message
  | constructorNotFound constructor =>
    "Constructor '" ++ constructor ++ "' not found in the semantic model"

/-- The texts of the error and of its causes. -/
def chain (e : AttributeError) : List String :=
  match e with
  | blob error => e.message :: error.chain
  | _ => [e.message]

end AttributeError

/-- What was found so far. -/
structure Cache where
  handles : HandleCache := []
  records : List (Entity × List Record) := []
deriving Inhabited

/-- A query for attributes. -/
abbrev Query := EStateM AttributeError Cache

namespace Query

/-- A step of resolution as a query. -/
def ofResolve {α : Type} (r : Resolve α) : Query α := fun c =>
  match r c.handles with
  | .ok a handles => .ok a { c with handles }
  | .error e handles => .error (.resolve e) { c with handles }

/-- The attributes of an entity, in the order of the metadata. -/
def attributes (s : Setting) (e : Entity) : Query (List Record) := do
  match (← get).records.lookup e with
  | some records => return records
  | none =>
    let h ← ofResolve (Resolution.resolve s e)
    match (s.catalog.attributes h).mapM Record.ofEntry with
    | .ok records =>
      modify fun c => { c with records := (e, records) :: c.records }
      return records
    | .error error => throw (.blob error)

/-- Whether an entity has an attribute of the given type. -/
def hasAttribute (s : Setting) (e : Entity) (typeName : String) : Query Bool := do
  return (← attributes s e).any (·.typeName == typeName)

end Query

/-- The constructor of the program through which an attribute was applied: the first fitting one
of its type. -/
def findConstructor (p : Program) (r : Record) : Except AttributeError MemberId :=
  let found := do
    let t ← p.type? (← p.findType? r.typeName)
    t.members.find? fun id => (p.member? id).any fun m =>
      m.kind == .constructor && !m.isStatic
        && Resolution.parametersMatch r.constructor.parameters m.parameters
  match found with
  | some id => .ok id
  | none => .error (.constructorNotFound r.constructor.text)

end ScriptCompiler
