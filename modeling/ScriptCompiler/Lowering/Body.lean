import ScriptCompiler.Lowering.Place

/-!
# Lowering of bodies

Resolved statements and expressions become script statements and expressions.  Running the
statements that an expression needs and then evaluating its value has the effects of the source
expression, in the same order.

A construct without a single script expression is taken apart: a setter used as a value, a change
through accessors, and a lazy operator whose later operand needs statements.  A construct that is
not lowered is reported and left out, so that the rest of the body still reports its messages.
-/

namespace ScriptCompiler.Lowering

/-! ## Operators and constants -/

/-- The script expression of a constant; a character is its code point. -/
def constantExpr : Source.Constant → Script.Expr
  | .null => .null
  | .boolean value => .boolean value
  | .int value => .number (Double.ofInt value)
  | .float value => .number value
  | .string value => .string value
  | .char value => .number (Double.ofNat value.toNat)

/-- The script operator of a binary operator; equality is strict. -/
def binaryOp : Source.BinaryOp → Script.BinaryOp
  | .add => .add
  | .subtract => .subtract
  | .multiply => .multiply
  | .divide => .divide
  | .modulo => .modulo
  | .bitwiseAnd => .bitwiseAnd
  | .bitwiseOr => .bitwiseOr
  | .bitwiseXor => .bitwiseXor
  | .leftShift => .leftShift
  | .rightShift => .rightShift
  | .equal => .strictEqual
  | .notEqual => .strictNotEqual
  | .lessThan => .lessThan
  | .lessEqual => .lessEqual
  | .greaterThan => .greaterThan
  | .greaterEqual => .greaterEqual
  | .logicalAnd => .logicalAnd
  | .logicalOr => .logicalOr
  | .nullCoalescing => .nullCoalescing

/-- The script operator of a unary operator. -/
def unaryOp : Source.UnaryOp → Script.UnaryOp
  | .negate => .negate
  | .plus => .plus
  | .not => .not
  | .bitwiseNot => .bitwiseNot

/-- Whether the operation divides 32-bit integers. -/
def isIntegerDivision (op : Source.BinaryOp) (left right : Source.Expr) : Bool :=
  op == .divide && left.type.isInt32 && right.type.isInt32

/-- The value cut down to a 32-bit integer. -/
def truncate (value : Script.Expr) : Script.Expr :=
  .binary .bitwiseOr value (.number .zero)

/-- The value of an operator that evaluates both operands; the quotient of integers is cut down. -/
def combine (op : Source.BinaryOp) (integerDivision : Bool) (left right : Script.Expr) :
    Script.Expr :=
  let value := Script.Expr.binary (binaryOp op) left right
  if integerDivision then truncate value else value

/-- The test on a captured left operand that asks for the right one. -/
def continuesOn (op : Source.BinaryOp) (left : Script.Expr) : Script.Expr :=
  match op with
  | .logicalAnd => left
  | .logicalOr => .unary .not left
  | _ => .binary .equal left .null

/-- A lazy operator.  If the right operand needs statements, they run under a test of the left
one. -/
def shortCircuit (c : Context) (op : Source.BinaryOp) (left right : Lowered) : Lower Lowered := do
  if right.before.isEmpty then
    return { left with value := .binary (binaryOp op) left.value right.value }
  let temporary ← newTemporary c
  let result := Script.Expr.ident temporary
  let taken := right.before ++ [.expr (.set result right.value)]
  return { before := left.before ++ [.var temporary (some left.value),
             .branch (continuesOn op result) (.block taken) none]
           value := result }

/-- A choice between two values.  If one of them needs statements, the choice becomes a branch. -/
def choose (c : Context) (condition whenTrue whenFalse : Lowered) : Lower Lowered := do
  if whenTrue.before.isEmpty && whenFalse.before.isEmpty then
    return { condition with
      value := .conditional condition.value whenTrue.value whenFalse.value }
  let temporary ← newTemporary c
  let result := Script.Expr.ident temporary
  return { before := condition.before ++ [.var temporary none,
             .branch condition.value
               (.block (whenTrue.before ++ [.expr (.set result whenTrue.value)]))
               (some (.block (whenFalse.before ++ [.expr (.set result whenFalse.value)])))]
           value := result }

/-! ## Assignments -/

/-- Writes the value of an operator on the old value of a place and `value`.  A place that needs
no accessor takes the operator into the assignment. -/
def compoundAssign (c : Context) (op : Source.BinaryOp) (integerDivision : Bool) (place : Place)
    (value : Script.Expr) (important : Bool) : Lower Lowered := do
  match place, integerDivision with
  | .binding location, false | .direct location, false =>
    return { value := .assign (some (binaryOp op)) location value }
  | _, _ =>
    let (captured, place) ← place.stabilize c
    let current ← place.load c
    let stored ← place.store c (combine op integerDivision current value) important
    return { stored with before := captured ++ stored.before }

/-- Writes `value` to a place, through the operator if there is one. -/
def assignPlace (c : Context) (op : Option Source.BinaryOp) (target source : Source.Expr)
    (place : Place) (value : Script.Expr) (important : Bool) : Lower Lowered :=
  match op with
  | none => place.store c value important
  | some op => compoundAssign c op (isIntegerDivision op target source) place value important

/-- Adds one to a location or takes one away. -/
def incrementExpr (kind : Source.IncrementKind) (location : Script.Expr) : Script.Expr :=
  match kind with
  | .preIncrement => .unary .preIncrement location
  | .preDecrement => .unary .preDecrement location
  | .postIncrement => .update .increment location
  | .postDecrement => .update .decrement location

/-- The value one above or one below. -/
def stepped (kind : Source.IncrementKind) (value : Script.Expr) : Script.Expr :=
  .binary (if kind.isIncrement then .add else .subtract) value (.number (Double.ofNat 1))

/-- Adds one to the value at a place or takes one away.  If the old value behind accessors is used
further on, it is captured. -/
def incrementPlace (c : Context) (kind : Source.IncrementKind) (place : Place)
    (important : Bool) : Lower Lowered := do
  match place with
  | .binding location | .direct location => return { value := incrementExpr kind location }
  | .accessor .. =>
    let (captured, place) ← place.stabilize c
    let current ← place.load c
    if kind.isPost && important then
      let temporary ← newTemporary c
      let old := Script.Expr.ident temporary
      let stored ← place.store c (stepped kind old) false
      return { before := captured ++ [.var temporary (some current)] ++ stored.before
                 ++ [.expr stored.value]
               value := old }
    else
      let stored ← place.store c (stepped kind current) important
      return { stored with before := captured ++ stored.before }

/-! ## Functions -/

/-- The names of the parameters of a lambda, and the statements that put those with reference
semantics into containers. -/
def lambdaParameters (c : Context) :
    List VariableId → Lower (List String × List Script.Stmt)
  | [] => return ([], [])
  | id :: rest => do
    match c.scope.get? id with
    | some v =>
      let (names, entry) ← lambdaParameters c rest
      let own :=
        if v.byReference then
          [Script.Stmt.expr (.set (.ident v.name) (container c (.ident v.name)))]
        else []
      return (v.name :: names, own ++ entry)
    | none =>
      internalError ("No variable descriptor for parameter #" ++ toString id.index)
      let (names, entry) ← lambdaParameters c rest
      return (unknownVariable id :: names, entry)

/-- A function that keeps the current `this` if it uses it. -/
def bindThis (usesThis : Bool) (function : Script.Expr) : Script.Expr :=
  if usesThis then .call (.member function "bind") [.this] else function

/-! ## Statements -/

/-- The script statements of a comment. -/
def commentStmts (c : Context) (kind : CommentKind) (content : String) : List Script.Stmt :=
  match kind with
  | .singleLine => [.comment content]
  | .multiLine =>
    match reformatComment content c.options.lineSeparator.text with
    | some text => [.comment text]
    | none => []
  | .documentation | .multiLineDocumentation | .inactiveCode => []

/-- The declaration of the bindings collected so far, if there are any. -/
def flush : List Script.Binding → List Script.Stmt
  | [] => []
  | bindings => [.declare bindings]

/-- The binding of a variable; one with reference semantics is bound to a container. -/
def bindingOf (c : Context) (v : Variable) (initializer : Option Script.Expr) : Script.Binding :=
  if v.byReference then .mk v.name (some (container c (initializer.getD .null)))
  else .mk v.name initializer

/-- A loop that tests in front of its body.  Statements that the condition needs run before every
test. -/
def whileStmt (condition : Lowered) (body : List Script.Stmt) : Script.Stmt :=
  if condition.before.isEmpty then .whileLoop condition.value (.block body)
  else
    .whileLoop (.boolean true)
      (.block (condition.before ++ [.branch (.unary .not condition.value) .break none] ++ body))

/-- Statements as the parts of one comma expression, and the bindings that must be declared for
it; `none` if one of them is neither an expression nor a declaration of one name. -/
def commaParts? : List Script.Stmt → Option (List Script.Binding × List Script.Expr)
  | [] => some ([], [])
  | .expr e :: rest => do
    let (declared, parts) ← commaParts? rest
    return (declared, e :: parts)
  | .declare [.mk name initializer] :: rest => do
    let (declared, parts) ← commaParts? rest
    return (.mk name none :: declared,
      (initializer.map fun e => .set (.ident name) e).toList ++ parts)
  | _ => none

/-- A loop that tests behind its body.  Statements that the condition needs become parts of a
comma expression; if they cannot, the loop is reported and left out. -/
def doWhileStmts (body : List Script.Stmt) (condition : Lowered) : Lower (List Script.Stmt) := do
  if condition.before.isEmpty then
    return [.doWhile (.block body) condition.value]
  match commaParts? condition.before with
  | some (declared, parts) =>
    return flush declared ++ [.doWhile (.block body) (.comma (parts ++ [condition.value]))]
  | none =>
    unsupported "do-while condition with conditional side effects"
    return []

mutual

/-- Lowers an expression.  If its value is not `important`, nobody reads the value, and setters
need not capture it. -/
def lowerExpr (c : Context) : Source.Expr → Bool → Lower Lowered
  | .constant _ value, _ => return { value := constantExpr value }
  | .localVar _ id, _ => return { value := ← readVariable c id }
  | .this _, _ => return { value := .this }
  | .field _ target id, _ => do
    let object ← lowerReceiver c id target
    return { object with value := .member object.value (← fieldName c id) }
  | .property _ target id, _ => do
    let object ← lowerReceiver c id target
    return { object with value := ← getProperty c object.value id [] }
  | .indexer _ target id arguments, _ => do
    let operands ← Operands.add c {} (← lowerExpr c target true)
    let operands ← lowerArguments c arguments operands
    return { operands with value := ← getProperty c operands.first id operands.rest }
  | .element _ array index, _ => do
    let operands ← Operands.add c {} (← lowerExpr c array true)
    let operands ← operands.add c (← lowerExpr c index true)
    return { operands with value := .index operands.first operands.second }
  | .call _ target id arguments, _ => do
    let operands ← lowerOptional c target {}
    let operands ← lowerArguments c arguments operands
    let object ← placeReceiver c id target operands.values
    let name ← methodName c id
    let arguments := if target.isSome then operands.rest else operands.values
    return { operands with value := .call (.member object name) arguments }
  | .delegateCall _ target arguments, _ => do
    let operands ← Operands.add c {} (← lowerExpr c target true)
    let operands ← lowerArguments c arguments operands
    return { operands with value := .call operands.first operands.rest }
  | .create _ id arguments, _ => do
    let operands ← lowerArguments c arguments {}
    return { operands with value := ← createObject c id operands.values }
  | .createArray _ elements, _ => do
    let operands ← lowerElements c elements {}
    return { operands with value := .array operands.values }
  | .binary _ op left right, _ => do
    let leftValue ← lowerExpr c left true
    if op.isShortCircuit then
      shortCircuit c op leftValue (← lowerExpr c right true)
    else
      let operands ← Operands.add c {} leftValue
      let operands ← operands.add c (← lowerExpr c right true)
      let value := combine op (isIntegerDivision op left right) operands.first operands.second
      return { operands with value }
  | .unary _ op operand, _ => do
    let operand ← lowerExpr c operand true
    return { operand with value := .unary (unaryOp op) operand.value }
  | .assign _ op target value, important => do
    let operands ← lowerTarget c target
    let operands ← operands.add c (← lowerExpr c value true)
    let place ← placeOf c target operands.values.dropLast
    let stored ← assignPlace c op target value place operands.last important
    return { stored with before := operands.before ++ stored.before }
  | .increment _ kind target, important => do
    let operands ← lowerTarget c target
    let place ← placeOf c target operands.values
    let stored ← incrementPlace c kind place important
    return { stored with before := operands.before ++ stored.before }
  | .conditional _ condition whenTrue whenFalse, _ => do
    let condition ← lowerExpr c condition true
    let whenTrue ← lowerExpr c whenTrue true
    let whenFalse ← lowerExpr c whenFalse true
    choose c condition whenTrue whenFalse
  | .lambda _ id parameters body, _ => do
    let entry := c.lambdas.get? id
    if entry.isNone then
      internalError ("No nested function data for lambda #" ++ toString id.index)
    let (names, entryStmts) ← lambdaParameters c parameters
    let location ← currentLocation
    let statements ← lowerLambdaBody c body
    setLocation location
    let function := Script.Expr.function none names (entryStmts ++ statements)
    return { value := bindThis (entry.any (·.usesThis)) function }

/-- Lowers the object of a member access. -/
def lowerReceiver (c : Context) (id : MemberId) : Option Source.Expr → Lower Lowered
  | some target => lowerExpr c target true
  | none => return { value := ← implicitReceiver c id }

/-- Lowers an operand that may be missing. -/
def lowerOptional (c : Context) : Option Source.Expr → Operands → Lower Operands
  | some e, operands => do operands.add c (← lowerExpr c e true)
  | none, operands => return operands

/-- Lowers arguments from left to right. -/
def lowerArguments (c : Context) : List Source.Argument → Operands → Lower Operands
  | [], operands => return operands
  | .mk mode value :: rest, operands => do
    let operand ←
      if mode.isReference then Lowered.mk [] <$> passReference c value
      else lowerExpr c value true
    lowerArguments c rest (← operands.add c operand)

/-- Lowers the elements of an array from left to right. -/
def lowerElements (c : Context) : List Source.Expr → Operands → Lower Operands
  | [], operands => return operands
  | e :: rest, operands => do
    lowerElements c rest (← operands.add c (← lowerExpr c e true))

/-- Lowers the sub-expressions of an assignable location; anything else is reported. -/
def lowerTarget (c : Context) : Source.Expr → Lower Operands
  | .localVar .. => return {}
  | .field _ object _ => lowerOptional c object {}
  | .property _ object _ => lowerOptional c object {}
  | .indexer _ object _ arguments => do
    let operands ← Operands.add c {} (← lowerExpr c object true)
    lowerArguments c arguments operands
  | .element _ array index => do
    let operands ← Operands.add c {} (← lowerExpr c array true)
    operands.add c (← lowerExpr c index true)
  | _ => do
    internalError "Assignment target is not assignable"
    return {}

/-- Lowers the body of a lambda; an expression is returned unless it yields nothing. -/
def lowerLambdaBody (c : Context) : Source.LambdaBody → Lower (List Script.Stmt)
  | .block body => lowerStmts c body
  | .expr value => do
    let returns := !value.type.isVoid
    let lowered ← lowerExpr c value returns
    return lowered.before ++
      [if returns then .return (some lowered.value) else .expr lowered.value]

/-- Lowers a statement.  With `spliced`, the statements of a block stand for the block itself. -/
def lowerStmt (c : Context) : Source.Stmt → Bool → Lower (List Script.Stmt)
  | .comment span kind content, _ => do
    setLocation (c.location span)
    return commentStmts c kind content
  | .declare span declarators, _ => do
    setLocation (c.location span)
    lowerDeclarators c declarators []
  | .expr span value, _ => do
    setLocation (c.location span)
    let lowered ← lowerExpr c value false
    return lowered.before ++ [.expr lowered.value]
  | .block span body, spliced => do
    if spliced then lowerStmts c body
    else
      setLocation (c.location span)
      return [.block (← lowerStmts c body)]
  | .checked span body, _ => do
    setLocation (c.location span)
    return [.block (← lowerStmts c body)]
  | .unchecked span body, _ => do
    setLocation (c.location span)
    return [.block (← lowerStmts c body)]
  | .return span none, _ => do
    setLocation (c.location span)
    return [.return none]
  | .return span (some value), _ => do
    setLocation (c.location span)
    let lowered ← lowerExpr c value true
    return lowered.before ++ [.return (some lowered.value)]
  | .branch span condition thenBranch elseBranch, _ => do
    setLocation (c.location span)
    let condition ← lowerExpr c condition true
    let thenBranch ← lowerStmt c thenBranch true
    let elseBranch ← lowerElse c elseBranch
    return condition.before ++ [.branch condition.value (.block thenBranch) elseBranch]
  | .whileLoop span condition body, _ => do
    setLocation (c.location span)
    let condition ← lowerExpr c condition true
    let body ← lowerStmt c body true
    return [whileStmt condition body]
  | .doWhile span body condition, _ => do
    setLocation (c.location span)
    let body ← lowerStmt c body true
    setLocation (c.location condition.span)
    let condition ← lowerExpr c condition true
    doWhileStmts body condition
  | .break span, _ => do
    setLocation (c.location span)
    return [.break]
  | .continue span, _ => do
    setLocation (c.location span)
    return [.continue]
  | .throw span none, _ => do
    setLocation (c.location span)
    unsupported "rethrow"
    return []
  | .throw span (some value), _ => do
    setLocation (c.location span)
    let lowered ← lowerExpr c value true
    return lowered.before ++ [.throw lowered.value]
  | .empty span, _ => do
    setLocation (c.location span)
    return [.empty]
  | .unsupported span construct, _ => do
    setLocation (c.location span)
    unsupported construct.name
    return []

/-- Lowers an else branch. -/
def lowerElse (c : Context) : Option Source.Stmt → Lower (Option Script.Stmt)
  | none => return none
  | some branch => return some (.block (← lowerStmt c branch true))

/-- Lowers a list of statements in order. -/
def lowerStmts (c : Context) : List Source.Stmt → Lower (List Script.Stmt)
  | [] => return []
  | s :: rest => do
    let first ← lowerStmt c s false
    return first ++ (← lowerStmts c rest)

/-- Lowers declarators in order.  Bindings are collected in one declaration until an initializer
needs statements; a variable without description is reported and left out. -/
def lowerDeclarators (c : Context) :
    List Source.Declarator → List Script.Binding → Lower (List Script.Stmt)
  | [], batch => return flush batch
  | .mk id name initializer span :: rest, batch => do
    setLocation (c.location span)
    match c.scope.get? id with
    | none =>
      internalError ("Variable declarator for '" ++ name ++ "' has no variable descriptor.")
      lowerDeclarators c rest batch
    | some v =>
      let value ← lowerInitializer c initializer
      let binding := bindingOf c v (value.map (·.value))
      match value.elim [] (·.before) with
      | [] => lowerDeclarators c rest (batch ++ [binding])
      | hoisted => return flush batch ++ hoisted ++ (← lowerDeclarators c rest [binding])

/-- Lowers an initializer that may be missing. -/
def lowerInitializer (c : Context) : Option Source.Expr → Lower (Option Lowered)
  | none => return none
  | some e => return some (← lowerExpr c e true)

end

end ScriptCompiler.Lowering
