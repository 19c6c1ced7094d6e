import ScriptCompiler.Lowering.Context
import ScriptCompiler.Proofs.Semantics.Behavior
import ScriptCompiler.Proofs.Semantics.Machine

/-!
# Running the source

`Expr.eval` evaluates a resolved source expression and `Stmt.behavior` gives the runs of a source
statement, on the same machine as the script.  Variables go by their ids.

The context of a body says what the source leaves open: which variables live in containers, and how
each member is realised.  A field is a field of its object, a property or indexer is a field, an
element or a pair of accessor methods, and a method is called by its name.

Evaluation is in source order.  The target of an assignment comes first: its sub-expressions are
evaluated from left to right, then, for `op=`, its old value is read, then the value is evaluated,
and at last the result is written.
-/

namespace ScriptCompiler.Source

open Machine Lowering

variable {V H : Type*}

/-! ## Operators, variables and members -/

/-- The operation that a binary operator stands for; equality is the strict one. -/
def BinaryOp.operation : BinaryOp → Script.BinaryOp
  | .add => .add
  | .subtract => .subtract
  | .multiply => .multiply
  | .divide => .divide
  | .modulo => .modulo
  | .bitwiseAnd => .bitwiseAnd
  | .bitwiseOr => .bitwiseOr
  | .bitwiseXor => .bitwiseXor
  | .leftShift => .leftShift
  | .rightShift => .rightShift
  | .equal => .strictEqual
  | .notEqual => .strictNotEqual
  | .lessThan => .lessThan
  | .lessEqual => .lessEqual
  | .greaterThan => .greaterThan
  | .greaterEqual => .greaterEqual
  | .logicalAnd => .logicalAnd
  | .logicalOr => .logicalOr
  | .nullCoalescing => .nullCoalescing

/-- The operation that a unary operator stands for. -/
def UnaryOp.operation : UnaryOp → Script.UnaryOp
  | .negate => .negate
  | .plus => .plus
  | .not => .not
  | .bitwiseNot => .bitwiseNot

/-- The value of a constant; a character is its code point. -/
def Constant.denote (P : Primitives V H) : Constant → V
  | .null => P.null
  | .boolean value => P.ofBool value
  | .int value => P.number (Double.ofInt value)
  | .float value => P.number value
  | .string value => P.string value
  | .char value => P.number (Double.ofNat value.toNat)

/-- Whether the value of the left operand is already the value of a lazy operator. -/
def BinaryOp.settled (P : Primitives V H) : BinaryOp → V → Bool
  | .logicalAnd, v => !P.truthy v
  | .logicalOr, v => P.truthy v
  | .nullCoalescing, v => !P.isNull v
  | _, _ => false

/-- An operator on evaluated operands.  The quotient of two integers is truncated. -/
def BinaryOp.apply (P : Primitives V H) (op : BinaryOp) (left right : TypeRef) (a b : V) :
    Action V H := fun s =>
  let r := P.binary op.operation a b s
  if op = .divide ∧ left.isInt32 = true ∧ right.isInt32 = true then
    P.binary .bitwiseOr r.1 (P.number .zero) r.2
  else r

/-- The operator by which an increment or decrement changes its target. -/
def IncrementKind.change (kind : IncrementKind) : Script.BinaryOp :=
  if kind.isIncrement then .add else .subtract

/-- The slot of a variable; one with reference semantics is the field of its container. -/
def variableSlot (P : Primitives V H) (c : Context) (id : VariableId)
    (s : Memory VariableId V H) : Slot VariableId V :=
  if (c.scope.get? id).any (·.byReference) then .member (s.vars id) P.containerField else .var id

/-- The slot of a field, property or indexer of `object`. -/
def memberSlot (P : Primitives V H) (c : Context) (id : MemberId) (object : V)
    (arguments : List V) : Slot VariableId V :=
  match c.naming.form? c.program id with
  | some (.field name) | some (.fieldProperty name) => .member object name
  | some (.property getter setter) => .accessor object getter setter arguments
  | some .nativeIndexer => .element object (arguments.headD P.null)
  | _ => .nowhere

/-- Calls a method of `object`. -/
def callMethod (P : Primitives V H) (c : Context) (id : MemberId) (object : V)
    (arguments : List V) : Action V H :=
  match c.naming.form? c.program id with
  | some (.method name) => P.call object name arguments
  | _ => fun s => (P.null, s)

/-- The object of an access without target: the type of a static member, `this` otherwise. -/
def implicitObject (P : Primitives V H) (c : Context) (id : MemberId) : V :=
  match c.program.member? id with
  | some m => if m.isStatic then P.typeValue m.declaringType else P.this
  | none => P.null

/-- What an argument passed by reference hands over: the container of a variable. -/
def containerOf (P : Primitives V H) : Expr → Memory VariableId V H → V
  | .localVar _ id, s => s.vars id
  | _, _ => P.null

/-! ## Expressions -/

mutual

/-- The value of an expression and the memory after its evaluation. -/
def Expr.eval (P : Primitives V H) (c : Context) :
    Expr → Memory VariableId V H → V × Memory VariableId V H
  | .constant _ value, s => (value.denote P, s)
  | .localVar _ id, s => (variableSlot P c id s).read P s
  | .this _, s => (P.this, s)
  | .field _ target id, s =>
    let o := evalReceiver P c id target s
    (memberSlot P c id o.1 []).read P o.2
  | .property _ target id, s =>
    let o := evalReceiver P c id target s
    (memberSlot P c id o.1 []).read P o.2
  | .indexer _ target id arguments, s =>
    let o := target.eval P c s
    let vs := evalArguments P c arguments o.2
    (memberSlot P c id o.1 vs.1).read P vs.2
  | .element _ array index, s =>
    let o := array.eval P c s
    let k := index.eval P c o.2
    k.2.act (P.getElement o.1 k.1)
  | .call _ target id arguments, s =>
    let o := evalReceiver P c id target s
    let vs := evalArguments P c arguments o.2
    vs.2.act (callMethod P c id o.1 vs.1)
  | .delegateCall _ target arguments, s =>
    let f := target.eval P c s
    let vs := evalArguments P c arguments f.2
    vs.2.act (P.invoke f.1 vs.1)
  | .create _ id arguments, s =>
    let vs := evalArguments P c arguments s
    vs.2.act (P.construct (P.constructorValue id) vs.1)
  | .createArray _ elements, s =>
    let vs := evalElements P c elements s
    vs.2.act (P.array vs.1)
  | .binary _ op left right, s =>
    let a := left.eval P c s
    if op.isShortCircuit then
      if op.settled P a.1 then a else right.eval P c a.2
    else
      let b := right.eval P c a.2
      b.2.act (op.apply P left.type right.type a.1 b.1)
  | .unary _ op operand, s =>
    let v := operand.eval P c s
    v.2.act (P.unary op.operation v.1)
  | .assign _ none target value, s =>
    let l := target.slot P c s
    let v := value.eval P c l.2
    (v.1, l.1.write P v.1 v.2)
  | .assign _ (some op) target value, s =>
    let l := target.slot P c s
    l.1.modify P (op.apply P target.type value.type) (value.eval P c) l.2
  | .increment _ kind target, s =>
    let l := target.slot P c s
    let r := l.1.update P kind.change l.2
    (if kind.isPost then r.1.1 else r.1.2, r.2)
  | .conditional _ condition whenTrue whenFalse, s =>
    let b := condition.eval P c s
    if P.truthy b.1 then whenTrue.eval P c b.2 else whenFalse.eval P c b.2
  -- functions are values that no primitive of the machine describes
  | .lambda .., s => (P.null, s)

/-- The slot that an expression denotes as the target of an assignment. -/
def Expr.slot (P : Primitives V H) (c : Context) :
    Expr → Memory VariableId V H → Slot VariableId V × Memory VariableId V H
  | .localVar _ id, s => (variableSlot P c id s, s)
  | .field _ target id, s =>
    let o := evalReceiver P c id target s
    (memberSlot P c id o.1 [], o.2)
  | .property _ target id, s =>
    let o := evalReceiver P c id target s
    (memberSlot P c id o.1 [], o.2)
  | .indexer _ target id arguments, s =>
    let o := target.eval P c s
    let vs := evalArguments P c arguments o.2
    (memberSlot P c id o.1 vs.1, vs.2)
  | .element _ array index, s =>
    let o := array.eval P c s
    let k := index.eval P c o.2
    (.element o.1 k.1, k.2)
  | _, s => (.nowhere, s)

/-- The object of a member access. -/
def evalReceiver (P : Primitives V H) (c : Context) (id : MemberId) :
    Option Expr → Memory VariableId V H → V × Memory VariableId V H
  | some target, s => target.eval P c s
  | none, s => (implicitObject P c id, s)

/-- The values of arguments evaluated in turn. -/
def evalArguments (P : Primitives V H) (c : Context) :
    List Argument → Memory VariableId V H → List V × Memory VariableId V H
  | [], s => ([], s)
  | .mk mode value :: rest, s =>
    let v := if mode.isReference then (containerOf P value s, s) else value.eval P c s
    let vs := evalArguments P c rest v.2
    (v.1 :: vs.1, vs.2)

/-- The values of the elements of an array evaluated in turn. -/
def evalElements (P : Primitives V H) (c : Context) :
    List Expr → Memory VariableId V H → List V × Memory VariableId V H
  | [], s => ([], s)
  | e :: rest, s =>
    let v := e.eval P c s
    let vs := evalElements P c rest v.2
    (v.1 :: vs.1, vs.2)

end

/-! ## Statements -/

/-- Declares a variable.  One with reference semantics gets a new container, which holds null
unless there is an initial value; any other one without initial value is left as it is. -/
def declareOne (P : Primitives V H) (c : Context) :
    Declarator → Memory VariableId V H → Memory VariableId V H
  | .mk id _ initializer _, s =>
    if (c.scope.get? id).any (·.byReference) then
      let v := initializer.elim (P.null, s) fun e => e.eval P c s
      let cell := v.2.act (P.newCell v.1)
      cell.2.set id cell.1
    else
      initializer.elim s fun e => (e.eval P c s).2.set id (e.eval P c s).1

/-- Declares variables in turn. -/
def declareAll (P : Primitives V H) (c : Context) :
    List Declarator → Memory VariableId V H → Memory VariableId V H
  | [], s => s
  | d :: rest, s => declareAll P c rest (declareOne P c d s)

/-- The test that an expression stands for. -/
def Expr.test (P : Primitives V H) (c : Context) (e : Expr) (s : Memory VariableId V H) :
    Bool × Memory VariableId V H :=
  let v := e.eval P c s
  (P.truthy v.1, v.2)

mutual

/-- The runs of a statement.  A construct that is never lowered, and throwing the current error
again, have none. -/
def Stmt.behavior (P : Primitives V H) (c : Context) :
    Stmt → Behavior (Memory VariableId V H) V
  | .comment .. => .step id
  | .declare _ declarators => .step (declareAll P c declarators)
  | .expr _ e => .step fun s => (e.eval P c s).2
  | .block _ body => behaviorAll P c body
  | .checked _ body => behaviorAll P c body
  | .unchecked _ body => behaviorAll P c body
  | .return _ none => .ends fun s => (.return none, s)
  | .return _ (some e) => .ends fun s => (.return (some (e.eval P c s).1), (e.eval P c s).2)
  | .branch _ condition thenBranch elseBranch =>
    .choose (condition.test P c) (thenBranch.behavior P c) (elseBehavior P c elseBranch)
  | .whileLoop _ condition body =>
    Behavior.Loop (Behavior.whileRound (condition.test P c) (body.behavior P c))
  | .doWhile _ body condition =>
    Behavior.Loop (Behavior.doWhileRound (body.behavior P c) (condition.test P c))
  | .break _ => .ends fun s => (.break, s)
  | .continue _ => .ends fun s => (.continue, s)
  | .throw _ none => fun _ _ _ => False
  | .throw _ (some e) => .ends fun s => (.throw (e.eval P c s).1, (e.eval P c s).2)
  | .empty _ => .step id
  | .unsupported .. => fun _ _ _ => False

/-- The runs of an else branch that may be missing. -/
def elseBehavior (P : Primitives V H) (c : Context) :
    Option Stmt → Behavior (Memory VariableId V H) V
  | none => .step id
  | some s => s.behavior P c

/-- The runs of a list of statements. -/
def behaviorAll (P : Primitives V H) (c : Context) :
    List Stmt → Behavior (Memory VariableId V H) V
  | [] => .step id
  | s :: rest => .seq (s.behavior P c) (behaviorAll P c rest)

end

end ScriptCompiler.Source
