import ScriptCompiler.Proofs.Hoisting.Agreement

/-!
# The expressions whose lowering keeps the order of evaluation

`Expr.Within` collects what a resolved expression must bring along for its lowering to be faithful:
variables have descriptions, members are realised in ways that fit their uses, arguments passed by
reference are variables in containers, and targets of assignments are assignable.  Functions are
left out.

Two kinds of assignment are not faithful in general and need a condition, which is a parameter: an
assignment through an operator, and an assignment to an indexer behind accessors whose value is
used.  `NoneOther` admits none of them, `Sequential` those whose parts do not get in each other's
way.
-/

namespace ScriptCompiler

namespace Source

open Machine Lowering

/-! ## Variables that are assigned -/

/-- Whether the expression is the variable. -/
def Expr.isVariable (id : VariableId) : Expr → Bool
  | .localVar _ i => i == id
  | _ => false

mutual

/-- Whether evaluating the expression may assign the variable.  Function bodies are not entered:
they do not run when the expression is evaluated. -/
def Expr.assigns (id : VariableId) : Expr → Bool
  | .constant .. | .localVar .. | .this _ | .lambda .. => false
  | .field _ target _ | .property _ target _ => receiverAssigns id target
  | .indexer _ target _ arguments => target.assigns id || argumentsAssign id arguments
  | .element _ array index => array.assigns id || index.assigns id
  | .call _ target _ arguments => receiverAssigns id target || argumentsAssign id arguments
  | .delegateCall _ target arguments => target.assigns id || argumentsAssign id arguments
  | .create _ _ arguments => argumentsAssign id arguments
  | .createArray _ elements => elementsAssign id elements
  | .binary _ _ left right => left.assigns id || right.assigns id
  | .unary _ _ operand => operand.assigns id
  | .assign _ _ target value =>
    target.isVariable id || target.assigns id || value.assigns id
  | .increment _ _ target => target.isVariable id || target.assigns id
  | .conditional _ condition whenTrue whenFalse =>
    condition.assigns id || whenTrue.assigns id || whenFalse.assigns id

/-- Whether the object of a member access may assign the variable. -/
def receiverAssigns (id : VariableId) : Option Expr → Bool
  | none => false
  | some e => e.assigns id

/-- Whether one of the arguments may assign the variable.  One passed by reference is not
evaluated. -/
def argumentsAssign (id : VariableId) : List Argument → Bool
  | [] => false
  | .mk mode value :: rest => (!mode.isReference && value.assigns id) || argumentsAssign id rest

/-- Whether one of the expressions may assign the variable. -/
def elementsAssign (id : VariableId) : List Expr → Bool
  | [] => false
  | e :: rest => e.assigns id || elementsAssign id rest

end

/-- Whether evaluating the argument may assign the variable. -/
def Argument.assigns (id : VariableId) : Argument → Bool
  | .mk mode value => !mode.isReference && value.assigns id

/-! ## Operands -/

section

variable {V H : Type*}

/-- The value of an argument and the memory after its evaluation. -/
def Argument.eval (P : Primitives V H) (c : Context) :
    Argument → Memory VariableId V H → V × Memory VariableId V H
  | .mk mode value, s => if mode.isReference then (containerOf P value s, s) else value.eval P c s

/-- The variable that an argument consists of. -/
def Argument.names (c : Context) (x : String) : Argument → Prop
  | .mk _ (.localVar _ id) => c.Names id x
  | _ => False

variable (P : Primitives V H) (c : Context)

/-- The first argument is evaluated first. -/
lemma evalArguments_cons (a : Argument) (rest : List Argument) (s : Memory VariableId V H) :
    evalArguments P c (a :: rest) s =
      ((a.eval P c s).1 :: (evalArguments P c rest (a.eval P c s).2).1,
        (evalArguments P c rest (a.eval P c s).2).2) := by
  cases a
  rfl

/-- Arguments evaluated in turn, one part of the list after the other. -/
lemma evalArguments_append (as bs : List Argument) (s : Memory VariableId V H) :
    evalArguments P c (as ++ bs) s =
      ((evalArguments P c as s).1 ++ (evalArguments P c bs (evalArguments P c as s).2).1,
        (evalArguments P c bs (evalArguments P c as s).2).2) := by
  induction as generalizing s with
  | nil => rfl
  | cons a as ih => simp only [List.cons_append, evalArguments_cons, ih]

/-- Every argument has a value. -/
lemma length_evalArguments (arguments : List Argument) (s : Memory VariableId V H) :
    (evalArguments P c arguments s).1.length = arguments.length := by
  induction arguments generalizing s with
  | nil => rfl
  | cons a rest ih => simp only [evalArguments_cons, List.length_cons, ih]

/-- Elements of an array are evaluated as arguments passed by value. -/
lemma evalElements_eq (elements : List Expr) (s : Memory VariableId V H) :
    evalElements P c elements s = evalArguments P c (elements.map (.mk .value)) s := by
  induction elements generalizing s with
  | nil => rfl
  | cons e rest ih => simp only [evalElements, List.map_cons, evalArguments_cons, ih]; rfl

/-- The sub-expressions of the target of an assignment, in the order of their evaluation. -/
def Expr.operands : Expr → List Argument
  | .field _ target _ | .property _ target _ => (target.map (.mk .value)).toList
  | .indexer _ target _ arguments => .mk .value target :: arguments
  | .element _ array index => [.mk .value array, .mk .value index]
  | _ => []

/-- The object of a member access, if its target has the values `vs`. -/
def objectOf (P : Primitives V H) (c : Context) (id : MemberId) (target : Option Expr)
    (vs : List V) : V :=
  if target.isSome then vs.headD P.null else implicitObject P c id

/-- The slot that a target denotes in the memory `s` if its sub-expressions have the values
`vs`. -/
def Expr.slotOf (P : Primitives V H) (c : Context) :
    Expr → List V → Memory VariableId V H → Slot VariableId V
  | .localVar _ id, _, s => variableSlot P c id s
  | .field _ target id, vs, _ => memberSlot P c id (objectOf P c id target vs) []
  | .property _ target id, vs, _ => memberSlot P c id (objectOf P c id target vs) []
  | .indexer _ _ id _, vs, _ => memberSlot P c id (vs.headD P.null) vs.tail
  | .element .., vs, _ => .element (vs.headD P.null) (vs.tail.headD P.null)
  | _, _, _ => .nowhere

/-- The object of a member access is evaluated as an operand. -/
lemma evalReceiver_eq (id : MemberId) (target : Option Expr) (s : Memory VariableId V H) :
    evalReceiver P c id target s =
      (objectOf P c id target (evalArguments P c (target.map (.mk .value)).toList s).1,
        (evalArguments P c (target.map (.mk .value)).toList s).2) := by
  cases target with
  | none => rfl
  | some e => rfl

/-- Evaluating a target is evaluating its sub-expressions and finding the slot. -/
lemma Expr.slot_eq (target : Expr) (s : Memory VariableId V H) :
    target.slot P c s =
      (target.slotOf P c (evalArguments P c target.operands s).1 s,
        (evalArguments P c target.operands s).2) := by
  cases target with
  | field i o id | property i o id =>
    simp only [Expr.slot, Expr.slotOf, Expr.operands, evalReceiver_eq]
  | _ => rfl

/-- Where a target is does not depend on whether its sub-expressions have been evaluated. -/
lemma Expr.slotOf_operands (target : Expr) (vs : List V) (s : Memory VariableId V H) :
    target.slotOf P c vs (evalArguments P c target.operands s).2 = target.slotOf P c vs s := by
  cases target <;> rfl

end

/-! ## The fragment -/

/-- Whether the expression can be the target of an assignment. -/
def Expr.isTarget : Expr → Bool
  | .localVar .. | .field .. | .property .. | .indexer .. | .element .. => true
  | _ => false

end Source

namespace Lowering

namespace Context

variable (c : Context)

/-- The member is a field of its object. -/
def IsField (id : MemberId) : Prop :=
  ∃ name, c.naming.form? c.program id = some (.field name) ∨
    c.naming.form? c.program id = some (.fieldProperty name)

/-- The member lies behind accessor methods. -/
def IsAccessor (id : MemberId) : Prop :=
  ∃ getter setter, c.naming.form? c.program id = some (.property getter setter)

/-- The member is an indexer of `count` arguments: it lies behind accessors, or it is an element of
its object and has one argument. -/
def IsIndexer (id : MemberId) (count : ℕ) : Prop :=
  c.IsAccessor id ∨ c.naming.form? c.program id = some .nativeIndexer ∧ count = 1

/-- The member is a method. -/
def IsMethod (id : MemberId) : Prop :=
  ∃ name, c.naming.form? c.program id = some (.method name)

/-- The member is a constructor, and its type has a name. -/
def IsConstructor (id : MemberId) : Prop :=
  ∃ m name type, c.program.member? id = some m ∧
    c.naming.form? c.program id = some (.constructor name) ∧
    c.naming.typeName? c.program m.declaringType = some type

/-- A use of the member without target has an object: its type, which has a name, or `this`. -/
def HasReceiver (id : MemberId) : Prop :=
  ∃ m, c.program.member? id = some m ∧
    (m.isStatic = true → ∃ type, c.naming.typeName? c.program m.declaringType = some type)

/-- The expression is a variable in a container. -/
def IsContained : Source.Expr → Prop
  | .localVar _ id => ∃ v, c.scope.get? id = some v ∧ v.byReference = true
  | _ => False

/-- The expression is a variable outside containers. -/
def IsPlain : Source.Expr → VariableId → Prop
  | .localVar _ i, id => i = id ∧ ∃ v, c.scope.get? id = some v ∧ v.byReference = false
  | _, _ => False

/-- The target is an indexer behind accessors. -/
def IsAccessorIndexer : Source.Expr → Prop
  | .indexer _ _ id _ => c.IsAccessor id
  | _ => False

end Context

/-- Conditions on an assignment: its operator, target and value, and whether its value is used. -/
abbrev Condition := Option Source.BinaryOp → Source.Expr → Source.Expr → Bool → Prop

/-- The lowering of the expression needs no statements. -/
def IsDirect (c : Context) (e : Source.Expr) : Prop :=
  ∀ st, (lowerExpr c e true st).1.before = []

/-- The lowering of the expression is no member access, so that calling it calls its value. -/
def IsCallable (c : Context) (e : Source.Expr) : Prop :=
  ∀ st object name, (lowerExpr c e true st).1.value ≠ .member object name

/-- No assignment through an operator and no used assignment to an indexer behind accessors. -/
def NoneOther : Condition := fun _ _ _ _ => False

/-- No variable among the arguments is assigned by an argument behind it. -/
def Steady (c : Context) (arguments : List Source.Argument) : Prop :=
  arguments.Pairwise fun a b => ∀ mode e id, a = .mk mode e → c.IsPlain e id → b.assigns id = false

/-- Assignments whose parts do not get in each other's way.  If there is an operator, the value
needs no statements, or the target is a variable that the value does not assign.  If there is none,
no variable among the sub-expressions of the target is assigned by a sub-expression behind it. -/
def Sequential (c : Context) : Condition := fun op target value _ =>
  match op with
  | some op => op.isShortCircuit = false ∧
      (IsDirect c value ∨ ∃ id, c.IsPlain target id ∧ value.assigns id = false)
  | none => Steady c target.operands

/-- The condition admits sequential assignments only. -/
def Condition.IsSequential (c : Context) (other : Condition) : Prop :=
  ∀ op target value important, other op target value important →
    Sequential c op target value important

/-- Where nothing is admitted, nothing is out of order. -/
lemma noneOther_isSequential (c : Context) : NoneOther.IsSequential c :=
  fun _ _ _ _ h => h.elim

/-- Sequential assignments are sequential. -/
lemma sequential_isSequential (c : Context) : (Sequential c).IsSequential c :=
  fun _ _ _ _ h => h

/-- An indexer behind accessors can be assigned. -/
lemma Context.IsAccessorIndexer.isTarget {c : Context} {target : Source.Expr}
    (h : c.IsAccessorIndexer target) : target.isTarget = true := by
  cases target with
  | indexer => rfl
  | _ => exact h.elim

end Lowering

namespace Source

open Lowering

mutual

/-- The expression can be lowered faithfully.  `other` says which assignments are allowed through an
operator, and which ones to indexers behind accessors if their values are used. -/
def Expr.Within (c : Context) (other : Condition) : Expr → Bool → Prop
  | .constant .., _ => True
  | .localVar _ id, _ => ∃ v, c.scope.get? id = some v
  | .this _, _ => True
  | .field _ target id, _ => c.IsField id ∧ receiverWithin c other id target
  | .property _ target id, _ =>
    (c.IsField id ∨ c.IsAccessor id) ∧ receiverWithin c other id target
  | .indexer _ target id arguments, _ =>
    c.IsIndexer id arguments.length ∧ target.Within c other true ∧
      argumentsWithin c other arguments
  | .element _ array index, _ => array.Within c other true ∧ index.Within c other true
  | .call _ target id arguments, _ =>
    c.IsMethod id ∧ receiverWithin c other id target ∧ argumentsWithin c other arguments
  | .delegateCall _ target arguments, _ =>
    IsCallable c target ∧ target.Within c other true ∧ argumentsWithin c other arguments
  | .create _ id arguments, _ => c.IsConstructor id ∧ argumentsWithin c other arguments
  | .createArray _ elements, _ => elementsWithin c other elements
  | .binary _ _ left right, _ => left.Within c other true ∧ right.Within c other true
  | .unary _ _ operand, _ => operand.Within c other true
  | .assign _ op target value, important =>
    target.isTarget = true ∧ target.Within c other true ∧ value.Within c other true ∧
      (op = none ∧ (important = true → ¬ c.IsAccessorIndexer target) ∨
        other op target value important)
  | .increment _ _ target, _ => target.isTarget = true ∧ target.Within c other true
  | .conditional _ condition whenTrue whenFalse, _ =>
    condition.Within c other true ∧ whenTrue.Within c other true ∧ whenFalse.Within c other true
  | .lambda .., _ => False

/-- The object of a member access can be lowered faithfully. -/
def receiverWithin (c : Context) (other : Condition) (id : MemberId) : Option Expr → Prop
  | none => c.HasReceiver id
  | some e => e.Within c other true

/-- The arguments can be lowered faithfully; those passed by reference are variables in
containers. -/
def argumentsWithin (c : Context) (other : Condition) : List Argument → Prop
  | [] => True
  | .mk mode value :: rest =>
    (if mode.isReference then c.IsContained value else value.Within c other true) ∧
      argumentsWithin c other rest

/-- The elements of an array can be lowered faithfully. -/
def elementsWithin (c : Context) (other : Condition) : List Expr → Prop
  | [] => True
  | e :: rest => e.Within c other true ∧ elementsWithin c other rest

end

end Source

end ScriptCompiler
