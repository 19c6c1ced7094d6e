import ScriptCompiler.Lowering.Body
import ScriptCompiler.Session.Attributes

/-!
# Sessions

A session holds what all bodies of one compilation share: options, program, names and metadata.
It lowers bodies and answers questions about attributes; a failure to answer is reported as a
defect.
-/

namespace ScriptCompiler

/-- A body with what was found out about it before lowering. -/
structure Body where
  file : String := ""
  scope : Scope := {}
  lambdas : List LambdaTree := []
  statement : Source.Stmt

/-- What the bodies of one compilation share. -/
structure Session where
  options : Options := {}
  program : Program := {}
  naming : Naming := {}
  catalog : Metadata.Catalog := {}
deriving Inhabited

namespace Session

/-- The sides that resolution matches. -/
def setting (s : Session) : Resolution.Setting where
  program := s.program
  catalog := s.catalog

/-- A reporter with the promotion of warnings that the options ask for. -/
def newReporter (s : Session) : Reporter where
  promoteWarnings := s.options.warningsAsErrors

/-- What the lowering of a body reads. -/
def context (s : Session) (b : Body) : Lowering.Context where
  program := s.program
  naming := s.naming
  options := s.options
  scope := b.scope
  lambdas := .ofForest b.lambdas
  file := b.file

/-- Lowers a body; `none` if it refers to something outside the program. -/
def compileBody (s : Session) (b : Body) (r : Reporter) :
    Option (List Script.Stmt × Reporter) := do
  let (statements, state) ←
    Lowering.result? (Lowering.lowerStmt (s.context b) b.statement true) { reporter := r }
  return (statements, state.reporter)

/-- The attributes of an entity.  A failure is reported, and then there are none; the result is
`none` if the entity is not in the program. -/
def attributes (s : Session) (e : Entity) (c : Cache) (r : Reporter) :
    Option (List Attribute.Record × Cache × Reporter) :=
  match Query.attributes s.setting e c with
  | .ok records c => some (records, c, r)
  | .error error c => do
    let described ← s.program.describe? e
    return ([], c, r.internalErrorFrom error.chain (some ("reading attributes of " ++ described)))

/-- Whether an entity has an attribute of the given type, with failures as for `attributes`. -/
def hasAttribute (s : Session) (e : Entity) (typeName : String) (c : Cache) (r : Reporter) :
    Option (Bool × Cache × Reporter) := do
  let (records, c, r) ← s.attributes e c r
  return (records.any (·.typeName == typeName), c, r)

end Session

end ScriptCompiler
