import ScriptCompiler.Lowering.Lambda
import ScriptCompiler.Options.Basic
import ScriptCompiler.Program.Naming
import ScriptCompiler.Report.Reporter
import ScriptCompiler.Text.Split

/-!
# What lowering reads and keeps

A context holds everything the lowering of one body reads; a state holds what it changes: the
number of the next temporary, the reporter, and a mark that is set once a type or member outside
the program was asked for.  A run that sets the mark has no result.

`Lower` is the state monad of lowering.  Its small operations are defined here.
-/

namespace ScriptCompiler

/-- What the script knows about a local variable or parameter. -/
structure Variable where
  /-- Identifier in the script. -/
  name : String
  /-- Whether the variable lives in a container with one field. -/
  byReference : Bool := false
deriving DecidableEq, Repr, Inhabited

/-- Variables by id, the newest entry of an id first. -/
structure Scope where
  entries : List (VariableId × Variable) := []
deriving DecidableEq, Repr, Inhabited

namespace Scope

/-- Describes a variable from now on. -/
def insert (s : Scope) (id : VariableId) (v : Variable) : Scope :=
  { entries := (id, v) :: s.entries }

/-- The description of a variable. -/
def get? (s : Scope) (id : VariableId) : Option Variable :=
  s.entries.lookup id

end Scope

namespace Lowering

/-- What the lowering of one body reads. -/
structure Context where
  program : Program := {}
  naming : Naming := {}
  options : Options := {}
  scope : Scope := {}
  lambdas : LambdaTable := {}
  /-- The file that the body comes from. -/
  file : String := ""
deriving Repr, Inhabited

namespace Context

/-- The name of the temporary with number `n`. -/
def temporaryName (c : Context) (n : Nat) : String :=
  c.options.temporaryPrefix ++ toString n

/-- A span in the file of the body. -/
def location (c : Context) (span : Span) : Location where
  file := c.file
  span := span

end Context

/-- What lowering changes. -/
structure State where
  /-- Number of the next temporary.  It has no bound; a counter of 32 bits gives the same names as
  long as a body takes fewer than `2 ^ 32 - 1` temporaries. -/
  next : Nat := 1
  reporter : Reporter := {}
  /-- Whether a type or member outside the program was asked for. -/
  dangling : Bool := false
deriving Repr, Inhabited

/-- A step of lowering. -/
abbrev Lower := StateM State

/-- The result and the final state of a step, unless it asked for something outside the program. -/
def result? {α : Type} (step : Lower α) (s : State) : Option (α × State) :=
  let (a, s) := step.run s
  if s.dangling then none else some (a, s)

/-! ## Temporaries -/

/-- Whether `name` was given to a temporary by a run that stands at `next`. -/
def State.isTemporary (s : State) (c : Context) (name : String) : Bool :=
  (List.range' 1 (s.next - 1)).any fun n => name == c.temporaryName n

/-- A new temporary. -/
def newTemporary (c : Context) : Lower String := do
  let s ← get
  set { s with next := s.next + 1 }
  return c.temporaryName s.next

/-! ## Messages -/

/-- Reports a catalog entry at the current location. -/
def report (m : Message) (arguments : List String) : Lower Unit :=
  modify fun s => { s with reporter := s.reporter.report m arguments }

/-- Reports a defect at the current location. -/
def internalError (text : String) : Lower Unit :=
  report .internalError [text]

/-- Reports a construct that is not lowered. -/
def unsupported (construct : String) : Lower Unit :=
  report .unsupportedConstruct [construct]

/-- Sets the current location. -/
def setLocation (location : Location) : Lower Unit :=
  modify fun s => { s with reporter := s.reporter.setLocation location }

/-- The current location. -/
def currentLocation : Lower Location := do
  return (← get).reporter.location

/-! ## Entities of the program -/

/-- The value of a lookup; a failing one marks the run and goes on with a stand-in. -/
def require {α : Type} [Inhabited α] : Option α → Lower α
  | some a => return a
  | none => do
    modify fun s => { s with dangling := true }
    return default

/-- A member of the program. -/
def getMember (c : Context) (id : MemberId) : Lower Member :=
  require (c.program.member? id)

/-- How a member is realised in the script. -/
def getForm (c : Context) (id : MemberId) : Lower MemberForm :=
  require (c.naming.form? c.program id)

/-- Reports that a member is realised in a way that its use does not fit. -/
def unexpectedForm (c : Context) (id : MemberId) (form : MemberForm) : Lower Unit := do
  let described ← require (c.program.describe? (.member id))
  internalError ("Unexpected implementation " ++ form.shown ++ " for " ++ described)

/-- The expression that a dotted name stands for. -/
def dottedName (name : String) : Script.Expr :=
  match Text.dottedParts name with
  | [] => .ident name
  | first :: rest => rest.foldl .member (.ident first)

/-- The expression that names a type. -/
def typeReference (c : Context) (id : TypeId) : Lower Script.Expr := do
  return dottedName (← require (c.naming.typeName? c.program id))

/-- The object of an access without target: the type for a static member, `this` otherwise. -/
def implicitReceiver (c : Context) (id : MemberId) : Lower Script.Expr := do
  let m ← getMember c id
  if m.isStatic then typeReference c m.declaringType else return .this

end Lowering

end ScriptCompiler
