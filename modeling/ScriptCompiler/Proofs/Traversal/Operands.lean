import ScriptCompiler.Proofs.Traversal.Tree

/-!
# Expressions as operands in turn

Most expressions are lowered alike: an assignment or increment first reports a target that is not
assignable, then the operands are lowered from left to right, and then the expression is completed
from their values.  `lowerExpr_strict` says so for every expression that evaluates all of its
operands.  The lazy operators, the conditional operator and functions are the other cases.
-/

namespace ScriptCompiler.Lowering

open Source (Argument)

/-! ## Lowering of operands -/

variable (c : Context)

/-- The first operand is not captured. -/
lemma add_empty (operand : Lowered) :
    Operands.add c {} operand = pure { before := operand.before, values := [operand.value] } := by
  unfold Operands.add
  by_cases h : operand.before = []
  · simp [h]
  · simp [h, spillAll]

/-- Arguments are lowered one part of the list after the other. -/
lemma lowerArguments_append (xs ys : List Argument) (operands : Operands) :
    lowerArguments c (xs ++ ys) operands =
      lowerArguments c xs operands >>= lowerArguments c ys := by
  induction xs generalizing operands with
  | nil => simp only [List.nil_append, lowerArguments, pure_bind]
  | cons a xs ih =>
    obtain ⟨mode, value⟩ := a
    by_cases hmode : mode.isReference = true
    · simp only [List.cons_append, lowerArguments, ih, bind_assoc, hmode, if_true]
    · simp only [List.cons_append, lowerArguments, ih, bind_assoc, hmode, if_false,
        Bool.false_eq_true]

/-- Lowers one operand: a container for an argument passed by reference, and a value otherwise. -/
def lowerOperand (a : Argument) : Lower Lowered :=
  if a.mode.isReference then Lowered.mk [] <$> passReference c a.value
  else lowerExpr c a.value true

/-- Arguments are lowered one after the other. -/
lemma lowerArguments_cons (a : Argument) (rest : List Argument) (operands : Operands) :
    lowerArguments c (a :: rest) operands =
      lowerOperand c a >>= operands.add c >>= lowerArguments c rest := by
  obtain ⟨mode, value⟩ := a
  unfold lowerOperand
  by_cases hmode : mode.isReference = true
  · simp only [lowerArguments, Argument.mode, Argument.value, hmode, if_true, bind_assoc]
  · simp only [lowerArguments, Argument.mode, Argument.value, hmode, if_false, Bool.false_eq_true,
      bind_assoc]

/-- One argument passed by value. -/
lemma lowerArguments_one (e : Source.Expr) (operands : Operands) :
    lowerArguments c [.mk .value e] operands = lowerExpr c e true >>= operands.add c := by
  simp only [lowerArguments, Source.ArgumentMode.isReference, Bool.false_eq_true, if_false,
    bind_pure]

/-- Elements of an array are lowered as arguments passed by value. -/
lemma lowerElements_eq (elements : List Source.Expr) (operands : Operands) :
    lowerElements c elements operands =
      lowerArguments c (elements.map (.mk .value)) operands := by
  induction elements generalizing operands with
  | nil => simp only [lowerElements, List.map_nil, lowerArguments]
  | cons e rest ih =>
    simp only [lowerElements, List.map_cons, lowerArguments, ih,
      Source.ArgumentMode.isReference, Bool.false_eq_true, if_false]

/-- An operand that may be missing is lowered as a list of arguments. -/
lemma lowerOptional_eq (target : Option Source.Expr) (operands : Operands) :
    lowerOptional c target operands =
      lowerArguments c (target.map (.mk .value)).toList operands := by
  cases target with
  | none => simp only [lowerOptional, Option.map_none, Option.toList_none, lowerArguments]
  | some e =>
    simp only [lowerOptional, Option.map_some, Option.toList_some, lowerArguments_one]

/-- Reports a target that cannot be assigned. -/
def announceTarget (target : Source.Expr) : Lower Unit :=
  if target.isTarget then return () else internalError "Assignment target is not assignable"

/-- The sub-expressions of a target are lowered as arguments, unless it was reported. -/
lemma lowerTarget_eq (target : Source.Expr) :
    lowerTarget c target = (do
      announceTarget target
      lowerArguments c target.operands {}) := by
  cases target <;>
    simp only [lowerTarget, announceTarget, Source.Expr.isTarget, if_true, pure_bind, bind_pure,
      lowerOptional_eq, Source.Expr.operands, lowerArguments, Source.ArgumentMode.isReference,
      Bool.false_eq_true, if_false]

/-! ## Strict expressions -/

/-- Reports the target of an assignment or increment that cannot be assigned. -/
def announce : Source.Expr → Lower Unit
  | .assign _ _ target _ | .increment _ _ target => announceTarget target
  | _ => return ()

/-- The lowering of a strict expression, given its operands. -/
def complete (e : Source.Expr) (important : Bool) (operands : Operands) : Lower Lowered :=
  match e with
  | .constant _ value => return { operands with value := constantExpr value }
  | .localVar _ id => return { operands with value := ← readVariable c id }
  | .field _ target id => do
    let object ← placeReceiver c id target operands.values
    return { operands with value := .member object (← fieldName c id) }
  | .property _ target id => do
    let object ← placeReceiver c id target operands.values
    return { operands with value := ← getProperty c object id [] }
  | .indexer _ _ id _ =>
    return { operands with value := ← getProperty c operands.first id operands.rest }
  | .element .. => return { operands with value := .index operands.first operands.second }
  | .call _ target id _ => do
    let object ← placeReceiver c id target operands.values
    let name ← methodName c id
    let arguments := if target.isSome then operands.rest else operands.values
    return { operands with value := .call (.member object name) arguments }
  | .delegateCall .. => return { operands with value := .call operands.first operands.rest }
  | .create _ id _ => return { operands with value := ← createObject c id operands.values }
  | .createArray .. => return { operands with value := .array operands.values }
  | .binary _ op left right =>
    return { operands with
      value := combine op (isIntegerDivision op left right) operands.first operands.second }
  | .unary _ op _ => return { operands with value := .unary (unaryOp op) operands.first }
  | .assign _ op target value => do
    let place ← placeOf c target operands.values.dropLast
    let stored ← assignPlace c op target value place operands.last important
    return { stored with before := operands.before ++ stored.before }
  | .increment _ kind target => do
    let place ← placeOf c target operands.values
    let stored ← incrementPlace c kind place important
    return { stored with before := operands.before ++ stored.before }
  | .this _ | .conditional .. | .lambda .. => return { operands with value := .this }

/-- The object of a member access is lowered as an operand. -/
lemma lowerReceiver_eq (id : MemberId) (target : Option Source.Expr) :
    lowerReceiver c id target = (do
      let operands ← lowerArguments c (target.map (.mk .value)).toList {}
      let object ← placeReceiver c id target operands.values
      return { operands with value := object }) := by
  cases target with
  | none =>
    simp only [lowerReceiver, Option.map_none, Option.toList_none, lowerArguments, pure_bind,
      placeReceiver, Option.isSome_none, Bool.false_eq_true, if_false]
  | some e =>
    simp only [lowerReceiver, Option.map_some, Option.toList_some, lowerArguments_one, add_empty,
      bind_assoc, pure_bind, placeReceiver, Option.isSome_some, if_true, List.headD_cons]
    exact (bind_pure _).symm

/-- A strict expression is lowered by lowering its operands in turn and completing it. -/
theorem lowerExpr_strict {e : Source.Expr} (h : e.isStrict = true) (important : Bool) :
    lowerExpr c e important = (do
      announce e
      let operands ← lowerArguments c e.inTurn {}
      complete c e important operands) := by
  cases e with
  | binary i op left right =>
    have hop : op.isShortCircuit = false := by simpa [Source.Expr.isStrict] using h
    simp only [lowerExpr, hop, announce, Source.Expr.inTurn, complete, lowerArguments, bind_assoc,
      pure_bind, Source.ArgumentMode.isReference, Bool.false_eq_true, if_false]
  | unary i op operand =>
    simp only [lowerExpr, announce, Source.Expr.inTurn, complete, lowerArguments_one, add_empty,
      bind_assoc, pure_bind, Operands.first, List.headD_cons]
  | assign i op target value | increment i kind target =>
    simp only [lowerExpr, lowerTarget_eq, announce, Source.Expr.inTurn, complete,
      lowerArguments_append, lowerArguments_one, bind_assoc]
  | conditional | lambda => exact absurd h (by simp [Source.Expr.isStrict])
  | _ =>
    simp only [lowerExpr, lowerReceiver_eq, lowerOptional_eq, lowerElements_eq, announce,
      Source.Expr.inTurn, complete, lowerArguments_append, lowerArguments, bind_assoc, pure_bind,
      Source.ArgumentMode.isReference, Bool.false_eq_true, if_false]

/-! ## Functions -/

/-- Looks a function up and names its parameters; the statements put parameters into containers. -/
def lambdaHead (id : LambdaId) (parameters : List VariableId) :
    Lower (List String × List Script.Stmt) := do
  if (c.lambdas.get? id).isNone then
    internalError ("No nested function data for lambda #" ++ toString id.index)
  lambdaParameters c parameters

/-- The function with the given head and body. -/
def lambdaValue (id : LambdaId) (head : List String × List Script.Stmt)
    (statements : List Script.Stmt) : Lowered where
  value := bindThis ((c.lambdas.get? id).any (·.usesThis))
    (.function none head.1 (head.2 ++ statements))

/-- The body of a function is lowered behind its head, and the location is restored. -/
lemma lowerExpr_lambda (i : Source.Info) (id : LambdaId) (parameters : List VariableId)
    (body : Source.LambdaBody) (important : Bool) :
    lowerExpr c (.lambda i id parameters body) important = (do
      let head ← lambdaHead c id parameters
      let location ← currentLocation
      let statements ← lowerLambdaBody c body
      setLocation location
      return lambdaValue c id head statements) := by
  unfold lowerExpr lambdaHead lambdaValue
  by_cases h : (c.lambdas.get? id).isNone = true
  · simp only [h, if_true, bind_assoc]
  · simp only [h, if_false, Bool.false_eq_true]

/-! ## Declarations -/

/-- Lowers one declarator; a variable without description is reported. -/
def lowerDeclarator : Source.Declarator → Lower (Option (Variable × Option Lowered))
  | .mk id name initializer span => do
    setLocation (c.location span)
    match c.scope.get? id with
    | none =>
      internalError ("Variable declarator for '" ++ name ++ "' has no variable descriptor.")
      return none
    | some v => return some (v, ← lowerInitializer c initializer)

/-- Declarators are lowered one after the other. -/
lemma lowerDeclarators_cons (d : Source.Declarator) (rest : List Source.Declarator)
    (batch : List Script.Binding) :
    lowerDeclarators c (d :: rest) batch = (do
      match ← lowerDeclarator c d with
      | none => lowerDeclarators c rest batch
      | some (v, value) =>
        let binding := bindingOf c v (value.map (·.value))
        match value.elim [] (·.before) with
        | [] => lowerDeclarators c rest (batch ++ [binding])
        | hoisted => return flush batch ++ hoisted ++ (← lowerDeclarators c rest [binding])) := by
  obtain ⟨id, name, initializer, span⟩ := d
  rw [lowerDeclarators, lowerDeclarator]
  cases c.scope.get? id with
  | none => rfl
  | some v => rfl

/-! ## Conditions behind loop bodies -/

/-- Whether the statement can be a part of a comma expression: an expression, or a declaration of
one name. -/
def isCommaPart : Script.Stmt → Bool
  | .expr _ | .declare [_] => true
  | _ => false

/-- Statements become a comma expression if each of them can be a part of it. -/
lemma isSome_commaParts?_iff (statements : List Script.Stmt) :
    (commaParts? statements).isSome ↔ ∀ s ∈ statements, isCommaPart s = true := by
  induction statements with
  | nil => simp [commaParts?]
  | cons s rest ih =>
    have hbind : ∀ f : List Script.Binding × List Script.Expr → List Script.Binding × List Script.Expr,
        ((commaParts? rest).bind fun x => some (f x)).isSome ↔
          ∀ t ∈ rest, isCommaPart t = true := by
      intro f
      rw [← ih]
      cases commaParts? rest <;> rfl
    rw [List.forall_mem_cons]
    cases s with
    | expr e => simpa [commaParts?, isCommaPart] using hbind fun x => (x.1, e :: x.2)
    | declare bindings =>
      match bindings with
      | [] | _ :: _ :: _ => simp [commaParts?, isCommaPart]
      | [.mk name initializer] =>
        simpa [commaParts?, isCommaPart] using hbind fun x =>
          (.mk name none :: x.1, (initializer.map fun e => .set (.ident name) e).toList ++ x.2)
    | _ => simp [commaParts?, isCommaPart]

/-- The comma parts of a list start with those of its first statement. -/
lemma commaParts?_cons {s : Script.Stmt} {rest : List Script.Stmt}
    {bindings : List Script.Binding} {parts : List Script.Expr}
    (h : commaParts? (s :: rest) = some (bindings, parts)) :
    ∃ bindings' parts', commaParts? rest = some (bindings', parts') ∧
      ((∃ e, s = .expr e ∧ bindings = bindings' ∧ parts = e :: parts') ∨
        ∃ name initializer, s = .declare [.mk name initializer] ∧
          bindings = .mk name none :: bindings' ∧
          parts = (initializer.map fun e => .set (.ident name) e).toList ++ parts') := by
  cases hrest : commaParts? rest with
  | none =>
    have hnone : commaParts? (s :: rest) = none := by
      unfold commaParts?
      split <;> simp_all
    rw [hnone] at h
    cases h
  | some tail =>
    obtain ⟨bindings', parts'⟩ := tail
    refine ⟨bindings', parts', rfl, ?_⟩
    unfold commaParts? at h
    split at h
    · simp_all
    · rename_i e rest' heq
      obtain ⟨rfl, rfl⟩ := List.cons.inj heq
      rw [hrest] at h
      obtain ⟨rfl, rfl⟩ := Prod.mk.inj (Option.some.inj h)
      exact .inl ⟨e, rfl, rfl, rfl⟩
    · rename_i name initializer rest' heq
      obtain ⟨rfl, rfl⟩ := List.cons.inj heq
      rw [hrest] at h
      obtain ⟨rfl, rfl⟩ := Prod.mk.inj (Option.some.inj h)
      exact .inr ⟨name, initializer, rfl, rfl, rfl⟩
    · cases h

/-- Brings a loop that tests behind its body to its condition, and yields the body. -/
def doWhileBody (span : Span) (body : Source.Stmt) (condition : Source.Expr) :
    Lower (List Script.Stmt) := do
  setLocation (c.location span)
  let statements ← lowerStmt c body true
  setLocation (c.location condition.span)
  return statements

/-- The condition of a loop that tests behind its body, lowered in its turn. -/
def doWhileCondition (span : Span) (body : Source.Stmt) (condition : Source.Expr) (s : State) :
    Lowered :=
  (lowerExpr c condition true (doWhileBody c span body condition s).2).1

/-- A loop that tests behind its body is its body, its condition and what becomes of both. -/
lemma lowerStmt_doWhile (span : Span) (body : Source.Stmt) (condition : Source.Expr)
    (spliced : Bool) :
    lowerStmt c (.doWhile span body condition) spliced = (do
      let statements ← doWhileBody c span body condition
      let lowered ← lowerExpr c condition true
      doWhileStmts statements lowered) := by
  simp only [lowerStmt, doWhileBody, bind_assoc, pure_bind]

/-- A loop that tests behind its body yields nothing if and only if its condition needs a statement
that cannot be a part of a comma expression. -/
lemma doWhile_eq_nil_iff (span : Span) (body : Source.Stmt) (condition : Source.Expr)
    (spliced : Bool) (s : State) :
    (lowerStmt c (.doWhile span body condition) spliced s).1 = [] ↔
      ∃ h ∈ (doWhileCondition c span body condition s).before, isCommaPart h = false := by
  have hrun : (lowerStmt c (.doWhile span body condition) spliced s).1 =
      (doWhileStmts (doWhileBody c span body condition s).1
        (doWhileCondition c span body condition s)
        (lowerExpr c condition true (doWhileBody c span body condition s).2).2).1 := by
    rw [lowerStmt_doWhile]
    rfl
  rw [hrun]
  have hpure : ∀ (out : List Script.Stmt) (st : State),
      ((pure out : Lower (List Script.Stmt)) st).1 = out := fun _ _ => rfl
  generalize doWhileCondition c span body condition s = lowered
  unfold doWhileStmts
  by_cases hempty : lowered.before = []
  · simp [hempty, hpure]
  · have hsome := isSome_commaParts?_iff lowered.before
    cases hparts : commaParts? lowered.before with
    | some parts =>
      have hall := hsome.mp (by rw [hparts]; rfl)
      obtain ⟨declared, items⟩ := parts
      have hnone : ¬ ∃ h ∈ lowered.before, isCommaPart h = false := by
        rintro ⟨h, hmem, hh⟩
        rw [hall h hmem] at hh
        cases hh
      simp [hempty, hpure, hnone]
    | none =>
      have hnot : ¬ ∀ h ∈ lowered.before, isCommaPart h = true := by
        intro hall
        have hcontra := hsome.mpr hall
        rw [hparts] at hcontra
        cases hcontra
      have hexists : ∃ h ∈ lowered.before, isCommaPart h = false := by
        simpa using hnot
      simp only [List.isEmpty_iff, hempty, if_false]
      exact ⟨fun _ => hexists, fun _ => rfl⟩

end ScriptCompiler.Lowering
