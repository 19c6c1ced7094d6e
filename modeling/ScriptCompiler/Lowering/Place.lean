import ScriptCompiler.Lowering.Context

/-!
# Values, operands and places

The lowering of an expression is a value together with the statements that must run before it.
Operands are lowered from left to right; as soon as one of them needs statements, every earlier
one whose evaluation can be observed is captured in a temporary, so that it is still evaluated
first.

A place is an assignable location whose sub-expressions have been lowered.  It is read by `load`
and written by `store`; `stabilize` makes it safe to do both.
-/

namespace ScriptCompiler.Lowering

/-- A value and the statements that must run before it. -/
structure Lowered where
  before : List Script.Stmt := []
  value : Script.Expr
deriving Inhabited

/-- Operands lowered so far: their values and the statements that must run before them. -/
structure Operands where
  before : List Script.Stmt := []
  values : List Script.Expr := []
deriving Inhabited

/-! ## Capturing values -/

/-- Whether evaluating the expression later yields the same value and has no effect. -/
def isStable (c : Context) : Script.Expr → Lower Bool
  | .ident name => return (← get).isTemporary c name
  | e => return e.isPure

/-- Captures a value in a temporary unless it is stable. -/
def spill (c : Context) (e : Script.Expr) : Lower Lowered := do
  if ← isStable c e then return { value := e }
  let temporary ← newTemporary c
  return { before := [.var temporary (some e)], value := .ident temporary }

/-- Captures each value of a list in turn. -/
def spillAll (c : Context) : List Script.Expr → Lower Operands
  | [] => return {}
  | e :: rest => do
    let first ← spill c e
    let others ← spillAll c rest
    return { before := first.before ++ others.before, values := first.value :: others.values }

/-- Captures a value unless evaluating `later` first cannot change it.  An identifier that `later`
does not assign keeps its value. -/
def spillBefore (c : Context) (later : Script.Expr) (e : Script.Expr) : Lower Lowered :=
  match e with
  | .ident name => if later.writes name then spill c e else return { value := e }
  | _ => spill c e

/-- Captures each value of a list in turn, ahead of `later`. -/
def spillAllBefore (c : Context) (later : Script.Expr) : List Script.Expr → Lower Operands
  | [] => return {}
  | e :: rest => do
    let first ← spillBefore c later e
    let others ← spillAllBefore c later rest
    return { before := first.before ++ others.before, values := first.value :: others.values }

namespace Operands

/-- Adds an operand behind the others.  If it needs statements, the others are captured first. -/
def add (c : Context) (operands : Operands) (operand : Lowered) : Lower Operands := do
  if operand.before.isEmpty then
    return { operands with values := operands.values ++ [operand.value] }
  let earlier ← spillAll c operands.values
  return { before := operands.before ++ earlier.before ++ operand.before
           values := earlier.values ++ [operand.value] }

/-- The first operand. -/
def first (operands : Operands) : Script.Expr :=
  operands.values.headD .null

/-- The operands after the first. -/
def rest (operands : Operands) : List Script.Expr :=
  operands.values.tail

/-- The second operand. -/
def second (operands : Operands) : Script.Expr :=
  operands.rest.headD .null

/-- The last operand. -/
def last (operands : Operands) : Script.Expr :=
  operands.values.getLast?.getD .null

end Operands

/-! ## Variables and members -/

/-- A container that holds one value. -/
def container (c : Context) (value : Script.Expr) : Script.Expr :=
  .object [.mk c.options.referenceField value]

/-- The name of a variable that has no description. -/
def unknownVariable (id : VariableId) : String :=
  "$local" ++ toString id.index

/-- Reports a variable without description and stands in for it. -/
def missingVariable (id : VariableId) : Lower Script.Expr := do
  internalError ("No variable descriptor for local #" ++ toString id.index)
  return .ident (unknownVariable id)

/-- The value of a variable; one with reference semantics is read from its container. -/
def readVariable (c : Context) (id : VariableId) : Lower Script.Expr :=
  match c.scope.get? id with
  | some v =>
    return if v.byReference then .member (.ident v.name) c.options.referenceField else .ident v.name
  | none => missingVariable id

/-- An argument passed by reference: the container of a variable itself. -/
def passReference (c : Context) : Source.Expr → Lower Script.Expr
  | .localVar _ id =>
    match c.scope.get? id with
    | some v => do
      unless v.byReference do
        internalError ("Variable '" ++ v.name
          ++ "' is passed by reference but does not use reference semantics")
      return .ident v.name
    | none => missingVariable id
  | _ => do
    internalError "Only local variables can be passed by reference"
    return .null

/-- The script name of a field; a member of another form is reported and keeps its own name. -/
def fieldName (c : Context) (id : MemberId) : Lower String := do
  match ← getForm c id with
  | .field name | .fieldProperty name => return name
  | form =>
    unexpectedForm c id form
    return (← getMember c id).name

/-- The script name of a method; a member of another form is reported and keeps its own name. -/
def methodName (c : Context) (id : MemberId) : Lower String := do
  match ← getForm c id with
  | .method name => return name
  | form =>
    unexpectedForm c id form
    return (← getMember c id).name

/-- The value of a property or indexer of `object`. -/
def getProperty (c : Context) (object : Script.Expr) (id : MemberId)
    (arguments : List Script.Expr) : Lower Script.Expr := do
  match ← getForm c id with
  | .property getter _ => return .call (.member object getter) arguments
  | .field name | .fieldProperty name => return .member object name
  | .nativeIndexer => return .index object (arguments.headD .null)
  | form =>
    unexpectedForm c id form
    return .null

/-- The object that a constructor creates from the arguments. -/
def createObject (c : Context) (id : MemberId) (arguments : List Script.Expr) :
    Lower Script.Expr := do
  let m ← getMember c id
  let type ← typeReference c m.declaringType
  match ← getForm c id with
  | .constructor none => return .new type arguments
  | .constructor (some name) => return .new (.member type name) arguments
  | form =>
    unexpectedForm c id form
    return .new type arguments

/-! ## Places -/

/-- An assignable location whose sub-expressions have been lowered. -/
inductive Place where
  /-- A variable or the field of its container. -/
  | binding (location : Script.Expr)
  /-- A field, an element, or a property kept in a field. -/
  | direct (location : Script.Expr)
  /-- A property or indexer behind accessor methods. -/
  | accessor (object : Script.Expr) (member : MemberId) (arguments : List Script.Expr)
deriving Inhabited

/-- The place of a property or indexer of `object`. -/
def propertyPlace (c : Context) (object : Script.Expr) (id : MemberId)
    (arguments : List Script.Expr) : Lower Place := do
  match ← getForm c id with
  | .property .. => return .accessor object id arguments
  | .field name | .fieldProperty name => return .direct (.member object name)
  | .nativeIndexer => return .direct (.index object (arguments.headD .null))
  | form =>
    unexpectedForm c id form
    return .direct (.member object (← getMember c id).name)

/-- The object of a place: the operand that was lowered for it, or the implicit one. -/
def placeReceiver (c : Context) (id : MemberId) (target : Option Source.Expr)
    (operands : List Script.Expr) : Lower Script.Expr :=
  if target.isSome then return operands.headD .null else implicitReceiver c id

/-- The place that `target` denotes, given the values of its sub-expressions.  A target that is
not assignable was reported before and has no place. -/
def placeOf (c : Context) (target : Source.Expr) (operands : List Script.Expr) : Lower Place :=
  match target with
  | .localVar _ id => return .binding (← readVariable c id)
  | .field _ object id => do
    let receiver ← placeReceiver c id object operands
    return .direct (.member receiver (← fieldName c id))
  | .property _ object id => do
    let receiver ← placeReceiver c id object operands
    propertyPlace c receiver id []
  | .indexer _ _ id _ => propertyPlace c (operands.headD .null) id operands.tail
  | .element .. => return .direct (.index (operands.headD .null) (operands.tail.headD .null))
  | _ => return .direct .null

namespace Place

/-- Captures the sub-expressions of a place, so that it can be read and then written. -/
def stabilize (c : Context) : Place → Lower (List Script.Stmt × Place)
  | .direct (.member target name) => do
    let target ← spill c target
    return (target.before, .direct (.member target.value name))
  | .direct (.index target key) => do
    let target ← spill c target
    let key ← spill c key
    return (target.before ++ key.before, .direct (.index target.value key.value))
  | .accessor object id arguments => do
    let object ← spill c object
    let arguments ← spillAll c arguments
    return (object.before ++ arguments.before, .accessor object.value id arguments.values)
  | place => return ([], place)

/-- The value at a place. -/
def load (c : Context) : Place → Lower Script.Expr
  | .binding location | .direct location => return location
  | .accessor object id arguments => getProperty c object id arguments

/-- The name of the setter of a property or indexer. -/
def setterName (c : Context) (id : MemberId) : Lower String := do
  match ← getForm c id with
  | .property _ setter => return setter
  | form =>
    unexpectedForm c id form
    return (← getMember c id).name

/-- Writes a value to a place.  If the value is used further on, it is captured ahead of the call
of a setter, and so are the object and the arguments, which were evaluated before it. -/
def store (c : Context) (place : Place) (value : Script.Expr) (important : Bool) :
    Lower Lowered :=
  match place with
  | .binding location | .direct location => return { value := .set location value }
  | .accessor object id arguments => do
    let setter ← setterName c id
    if !important then
      return { value := .call (.member object setter) (arguments ++ [value]) }
    if ← isStable c value then
      return { before := [.expr (.call (.member object setter) (arguments ++ [value]))], value }
    let object ← spillBefore c value object
    let arguments ← spillAllBefore c value arguments
    let value ← spill c value
    let call := Script.Expr.call (.member object.value setter) (arguments.values ++ [value.value])
    return { before := object.before ++ arguments.before ++ value.before ++ [.expr call]
             value := value.value }

end Place

end ScriptCompiler.Lowering
