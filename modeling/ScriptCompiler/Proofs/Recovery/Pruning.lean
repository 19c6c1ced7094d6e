import ScriptCompiler.Proofs.Traversal.Operands

/-!
# Trees without the constructs that are not lowered

`Stmt.prune` takes every statement that is never lowered out of a tree, also inside functions: it
is deleted from lists of statements, and an empty block stands for it where one statement is
needed.  `Stmt.allStmts` lists the statements of a tree in the order of the text.

Pruning changes neither the shape of an expression nor its type, so operands are pruned one by one
(`Expr.inTurn_prune`) and an expression is completed from them as before (`complete_prune`).
-/

namespace ScriptCompiler

namespace Source

/-- Whether the statement is never lowered: an unsupported construct, or an error thrown again. -/
def Stmt.isRemoved : Stmt → Bool
  | .unsupported .. | .throw _ none => true
  | _ => false

/-! ## Pruned trees -/

mutual

/-- The expression with the bodies of its functions pruned. -/
def Expr.prune : Expr → Expr
  | .constant i value => .constant i value
  | .localVar i id => .localVar i id
  | .this i => .this i
  | .field i target id => .field i (pruneOptional target) id
  | .property i target id => .property i (pruneOptional target) id
  | .indexer i target id arguments => .indexer i target.prune id (pruneArguments arguments)
  | .element i array index => .element i array.prune index.prune
  | .call i target id arguments => .call i (pruneOptional target) id (pruneArguments arguments)
  | .delegateCall i target arguments => .delegateCall i target.prune (pruneArguments arguments)
  | .create i id arguments => .create i id (pruneArguments arguments)
  | .createArray i elements => .createArray i (pruneElements elements)
  | .binary i op left right => .binary i op left.prune right.prune
  | .unary i op operand => .unary i op operand.prune
  | .assign i op target value => .assign i op target.prune value.prune
  | .increment i kind target => .increment i kind target.prune
  | .conditional i condition whenTrue whenFalse =>
    .conditional i condition.prune whenTrue.prune whenFalse.prune
  | .lambda i id parameters body => .lambda i id parameters body.prune

/-- An expression that may be missing, pruned. -/
def pruneOptional : Option Expr → Option Expr
  | none => none
  | some e => some e.prune

/-- Arguments, pruned. -/
def pruneArguments : List Argument → List Argument
  | [] => []
  | .mk mode value :: rest => .mk mode value.prune :: pruneArguments rest

/-- The elements of an array, pruned. -/
def pruneElements : List Expr → List Expr
  | [] => []
  | e :: rest => e.prune :: pruneElements rest

/-- The body of a function, pruned. -/
def LambdaBody.prune : LambdaBody → LambdaBody
  | .expr value => .expr value.prune
  | .block body => .block (pruneStmts body)

/-- Declarators with their initial values pruned. -/
def pruneDeclarators : List Declarator → List Declarator
  | [] => []
  | .mk id name initializer span :: rest =>
    .mk id name (pruneOptional initializer) span :: pruneDeclarators rest

/-- The statement pruned; an empty block stands for one that is never lowered. -/
def Stmt.prune : Stmt → Stmt
  | .comment span kind content => .comment span kind content
  | .declare span declarators => .declare span (pruneDeclarators declarators)
  | .expr span value => .expr span value.prune
  | .block span body => .block span (pruneStmts body)
  | .checked span body => .checked span (pruneStmts body)
  | .unchecked span body => .unchecked span (pruneStmts body)
  | .return span value => .return span (pruneOptional value)
  | .branch span condition thenBranch elseBranch =>
    .branch span condition.prune thenBranch.prune (pruneElse elseBranch)
  | .whileLoop span condition body => .whileLoop span condition.prune body.prune
  | .doWhile span body condition => .doWhile span body.prune condition.prune
  | .break span => .break span
  | .continue span => .continue span
  | .throw span none => .block span []
  | .throw span (some value) => .throw span (some value.prune)
  | .empty span => .empty span
  | .unsupported span _ => .block span []

/-- An else branch, pruned. -/
def pruneElse : Option Stmt → Option Stmt
  | none => none
  | some branch => some branch.prune

/-- A list of statements without those that are never lowered, each of the others pruned. -/
def pruneStmts : List Stmt → List Stmt
  | [] => []
  | s :: rest => if s.isRemoved then pruneStmts rest else s.prune :: pruneStmts rest

end

/-! ## All statements of a tree -/

mutual

/-- The statements inside an expression, in the order of the text. -/
def Expr.innerStmts : Expr → List Stmt
  | .constant .. | .localVar .. | .this _ => []
  | .field _ target _ | .property _ target _ => optionalStmts target
  | .indexer _ target _ arguments => target.innerStmts ++ argumentsStmts arguments
  | .element _ array index => array.innerStmts ++ index.innerStmts
  | .call _ target _ arguments => optionalStmts target ++ argumentsStmts arguments
  | .delegateCall _ target arguments => target.innerStmts ++ argumentsStmts arguments
  | .create _ _ arguments => argumentsStmts arguments
  | .createArray _ elements => elementsStmts elements
  | .binary _ _ left right => left.innerStmts ++ right.innerStmts
  | .unary _ _ operand => operand.innerStmts
  | .assign _ _ target value => target.innerStmts ++ value.innerStmts
  | .increment _ _ target => target.innerStmts
  | .conditional _ condition whenTrue whenFalse =>
    condition.innerStmts ++ whenTrue.innerStmts ++ whenFalse.innerStmts
  | .lambda _ _ _ body => body.innerStmts

/-- The statements inside an expression that may be missing. -/
def optionalStmts : Option Expr → List Stmt
  | none => []
  | some e => e.innerStmts

/-- The statements inside arguments. -/
def argumentsStmts : List Argument → List Stmt
  | [] => []
  | .mk _ value :: rest => value.innerStmts ++ argumentsStmts rest

/-- The statements inside the elements of an array. -/
def elementsStmts : List Expr → List Stmt
  | [] => []
  | e :: rest => e.innerStmts ++ elementsStmts rest

/-- The statements inside the body of a function. -/
def LambdaBody.innerStmts : LambdaBody → List Stmt
  | .expr value => value.innerStmts
  | .block body => stmtsStmts body

/-- The statements inside declarators. -/
def declaratorsStmts : List Declarator → List Stmt
  | [] => []
  | .mk _ _ initializer _ :: rest => optionalStmts initializer ++ declaratorsStmts rest

/-- The statement and those inside it, in the order of the text. -/
def Stmt.allStmts : Stmt → List Stmt
  | .comment span kind content => [.comment span kind content]
  | .declare span declarators => .declare span declarators :: declaratorsStmts declarators
  | .expr span value => .expr span value :: value.innerStmts
  | .block span body => .block span body :: stmtsStmts body
  | .checked span body => .checked span body :: stmtsStmts body
  | .unchecked span body => .unchecked span body :: stmtsStmts body
  | .return span value => .return span value :: optionalStmts value
  | .branch span condition thenBranch elseBranch =>
    .branch span condition thenBranch elseBranch ::
      (condition.innerStmts ++ thenBranch.allStmts ++ elseStmts elseBranch)
  | .whileLoop span condition body =>
    .whileLoop span condition body :: (condition.innerStmts ++ body.allStmts)
  | .doWhile span body condition =>
    .doWhile span body condition :: (body.allStmts ++ condition.innerStmts)
  | .break span => [.break span]
  | .continue span => [.continue span]
  | .throw span value => .throw span value :: optionalStmts value
  | .empty span => [.empty span]
  | .unsupported span construct => [.unsupported span construct]

/-- The statements of an else branch. -/
def elseStmts : Option Stmt → List Stmt
  | none => []
  | some branch => branch.allStmts

/-- The statements of a list and those inside them. -/
def stmtsStmts : List Stmt → List Stmt
  | [] => []
  | s :: rest => s.allStmts ++ stmtsStmts rest

end

/-! ## Nothing is left to remove -/

attribute [local simp] Expr.prune pruneOptional pruneArguments pruneElements LambdaBody.prune
  pruneDeclarators Stmt.prune pruneElse pruneStmts Expr.innerStmts optionalStmts argumentsStmts
  elementsStmts LambdaBody.innerStmts declaratorsStmts Stmt.allStmts elseStmts stmtsStmts
  Stmt.isRemoved

mutual

/-- No statement inside a pruned expression is to be removed. -/
theorem Expr.isRemoved_of_mem_prune : ∀ (e : Expr), ∀ s ∈ e.prune.innerStmts, s.isRemoved = false
  | .constant .. | .localVar .. | .this _ => by simp
  | .field _ target _ | .property _ target _ => isRemoved_of_mem_pruneOptional target
  | .indexer _ target _ arguments | .delegateCall _ target arguments => by
    rw [Expr.prune, Expr.innerStmts, List.forall_mem_append]
    exact ⟨target.isRemoved_of_mem_prune, isRemoved_of_mem_pruneArguments arguments⟩
  | .element _ left right | .binary _ _ left right | .assign _ _ left right => by
    rw [Expr.prune, Expr.innerStmts, List.forall_mem_append]
    exact ⟨left.isRemoved_of_mem_prune, right.isRemoved_of_mem_prune⟩
  | .call _ target _ arguments => by
    rw [Expr.prune, Expr.innerStmts, List.forall_mem_append]
    exact ⟨isRemoved_of_mem_pruneOptional target, isRemoved_of_mem_pruneArguments arguments⟩
  | .create _ _ arguments => isRemoved_of_mem_pruneArguments arguments
  | .createArray _ elements => isRemoved_of_mem_pruneElements elements
  | .unary _ _ operand | .increment _ _ operand => operand.isRemoved_of_mem_prune
  | .conditional _ condition whenTrue whenFalse => by
    rw [Expr.prune, Expr.innerStmts, List.forall_mem_append, List.forall_mem_append]
    exact ⟨⟨condition.isRemoved_of_mem_prune, whenTrue.isRemoved_of_mem_prune⟩,
      whenFalse.isRemoved_of_mem_prune⟩
  | .lambda _ _ _ (.expr value) => value.isRemoved_of_mem_prune
  | .lambda _ _ _ (.block body) => isRemoved_of_mem_pruneStmts body

theorem isRemoved_of_mem_pruneOptional :
    ∀ (e : Option Expr), ∀ s ∈ optionalStmts (pruneOptional e), s.isRemoved = false
  | none => by simp
  | some e => e.isRemoved_of_mem_prune

theorem isRemoved_of_mem_pruneArguments :
    ∀ (arguments : List Argument), ∀ s ∈ argumentsStmts (pruneArguments arguments),
      s.isRemoved = false
  | [] => by simp
  | .mk _ value :: rest => by
    rw [pruneArguments, argumentsStmts, List.forall_mem_append]
    exact ⟨value.isRemoved_of_mem_prune, isRemoved_of_mem_pruneArguments rest⟩

theorem isRemoved_of_mem_pruneElements :
    ∀ (elements : List Expr), ∀ s ∈ elementsStmts (pruneElements elements), s.isRemoved = false
  | [] => by simp
  | e :: rest => by
    rw [pruneElements, elementsStmts, List.forall_mem_append]
    exact ⟨e.isRemoved_of_mem_prune, isRemoved_of_mem_pruneElements rest⟩

theorem isRemoved_of_mem_pruneDeclarators :
    ∀ (declarators : List Declarator), ∀ s ∈ declaratorsStmts (pruneDeclarators declarators),
      s.isRemoved = false
  | [] => by simp
  | .mk _ _ initializer _ :: rest => by
    rw [pruneDeclarators, declaratorsStmts, List.forall_mem_append]
    exact ⟨isRemoved_of_mem_pruneOptional initializer, isRemoved_of_mem_pruneDeclarators rest⟩

/-- No statement of a pruned tree is to be removed. -/
theorem Stmt.isRemoved_of_mem_prune : ∀ (t : Stmt), ∀ s ∈ t.prune.allStmts, s.isRemoved = false
  | .comment .. | .break _ | .continue _ | .empty _ | .throw _ none | .unsupported .. => by simp
  | .declare _ declarators =>
    List.forall_mem_cons.mpr ⟨rfl, isRemoved_of_mem_pruneDeclarators declarators⟩
  | .expr _ value => List.forall_mem_cons.mpr ⟨rfl, value.isRemoved_of_mem_prune⟩
  | .block _ body | .checked _ body | .unchecked _ body =>
    List.forall_mem_cons.mpr ⟨rfl, isRemoved_of_mem_pruneStmts body⟩
  | .return _ value => List.forall_mem_cons.mpr ⟨rfl, isRemoved_of_mem_pruneOptional value⟩
  | .branch _ condition thenBranch elseBranch => by
    rw [Stmt.prune, Stmt.allStmts, List.forall_mem_cons, List.forall_mem_append,
      List.forall_mem_append]
    exact ⟨rfl, ⟨condition.isRemoved_of_mem_prune, thenBranch.isRemoved_of_mem_prune⟩,
      isRemoved_of_mem_pruneElse elseBranch⟩
  | .whileLoop _ condition body => by
    rw [Stmt.prune, Stmt.allStmts, List.forall_mem_cons, List.forall_mem_append]
    exact ⟨rfl, condition.isRemoved_of_mem_prune, body.isRemoved_of_mem_prune⟩
  | .doWhile _ body condition => by
    rw [Stmt.prune, Stmt.allStmts, List.forall_mem_cons, List.forall_mem_append]
    exact ⟨rfl, body.isRemoved_of_mem_prune, condition.isRemoved_of_mem_prune⟩
  | .throw _ (some value) => List.forall_mem_cons.mpr ⟨rfl, value.isRemoved_of_mem_prune⟩

theorem isRemoved_of_mem_pruneElse :
    ∀ (branch : Option Stmt), ∀ s ∈ elseStmts (pruneElse branch), s.isRemoved = false
  | none => by simp
  | some branch => branch.isRemoved_of_mem_prune

theorem isRemoved_of_mem_pruneStmts :
    ∀ (body : List Stmt), ∀ s ∈ stmtsStmts (pruneStmts body), s.isRemoved = false
  | [] => by simp
  | t :: rest => by
    unfold pruneStmts
    split
    · exact isRemoved_of_mem_pruneStmts rest
    · rw [stmtsStmts, List.forall_mem_append]
      exact ⟨t.isRemoved_of_mem_prune, isRemoved_of_mem_pruneStmts rest⟩

end

/-! ## Operands of pruned expressions -/

/-- An argument, pruned. -/
def Argument.prune : Argument → Argument
  | .mk mode value => .mk mode value.prune

lemma pruneArguments_eq (arguments : List Argument) :
    pruneArguments arguments = arguments.map Argument.prune := by
  induction arguments with
  | nil => simp only [pruneArguments, List.map_nil]
  | cons a rest ih =>
    cases a
    simp only [pruneArguments, ih, List.map_cons, Argument.prune]

lemma pruneElements_eq (elements : List Expr) :
    pruneElements elements = elements.map Expr.prune := by
  induction elements with
  | nil => simp only [pruneElements, List.map_nil]
  | cons e rest ih => simp only [pruneElements, ih, List.map_cons]

/-- A target that may be missing is pruned as an operand. -/
lemma toList_pruneOptional (target : Option Expr) :
    ((pruneOptional target).map (Argument.mk .value)).toList =
      (target.map (Argument.mk .value)).toList.map Argument.prune := by
  cases target <;> simp [pruneOptional, Argument.prune]

lemma Expr.operands_prune (target : Expr) :
    target.prune.operands = target.operands.map Argument.prune := by
  cases target <;>
    simp only [Expr.prune, Expr.operands, toList_pruneOptional, pruneArguments_eq, List.map_cons,
      List.map_nil, Argument.prune]

/-- Operands are pruned one by one. -/
theorem Expr.inTurn_prune (e : Expr) : e.prune.inTurn = e.inTurn.map Argument.prune := by
  cases e with
  | createArray i elements =>
    simp only [Expr.prune, Expr.inTurn, pruneElements_eq, List.map_map]
    rfl
  | _ =>
    simp only [Expr.prune, Expr.inTurn, toList_pruneOptional, pruneArguments_eq, Expr.operands_prune,
      List.map_append, List.map_cons, List.map_nil, Argument.prune]

lemma Expr.isStrict_prune (e : Expr) : e.prune.isStrict = e.isStrict := by
  cases e <;> simp only [Expr.prune, Expr.isStrict]

lemma Expr.isTarget_prune (e : Expr) : e.prune.isTarget = e.isTarget := by
  cases e <;> simp only [Expr.prune, Expr.isTarget]

lemma Expr.info_prune (e : Expr) : e.prune.info = e.info := by
  cases e <;> simp only [Expr.prune, Expr.info]

/-- Pruning keeps the type. -/
lemma Expr.type_prune (e : Expr) : e.prune.type = e.type := by
  rw [Expr.type, Expr.info_prune, Expr.type]

/-- Pruning keeps the place in the source. -/
lemma Expr.span_prune (e : Expr) : e.prune.span = e.span := by
  rw [Expr.span, Expr.info_prune, Expr.span]

/-! ## Statements inside operands -/

lemma argumentsStmts_eq (arguments : List Argument) :
    argumentsStmts arguments = arguments.flatMap fun a => a.value.innerStmts := by
  induction arguments with
  | nil => simp only [argumentsStmts, List.flatMap_nil]
  | cons a rest ih =>
    cases a
    simp only [argumentsStmts, ih, List.flatMap_cons, Argument.value]

lemma elementsStmts_eq (elements : List Expr) :
    elementsStmts elements =
      (elements.map (Argument.mk .value)).flatMap fun a => a.value.innerStmts := by
  induction elements with
  | nil => simp only [elementsStmts, List.map_nil, List.flatMap_nil]
  | cons e rest ih => simp only [elementsStmts, ih, List.map_cons, List.flatMap_cons, Argument.value]

lemma optionalStmts_eq (target : Option Expr) :
    optionalStmts target =
      (target.map (Argument.mk .value)).toList.flatMap fun a => a.value.innerStmts := by
  cases target <;> simp [optionalStmts, Argument.value]

/-- The statements inside a target are those inside its sub-expressions. -/
lemma Expr.innerStmts_target {target : Expr} (h : target.isTarget = true) :
    target.innerStmts = target.operands.flatMap fun a => a.value.innerStmts := by
  cases target with
  | localVar | field | property | indexer | element =>
    simp only [Expr.innerStmts, Expr.operands, optionalStmts_eq, argumentsStmts_eq,
      List.flatMap_cons, List.flatMap_nil, Argument.value, List.append_nil]
  | _ => cases h

/-- The target of an assignment or increment can be assigned. -/
def Expr.IsAssignable : Expr → Prop
  | .assign _ _ target _ | .increment _ _ target => target.isTarget = true
  | _ => True

/-- The statements inside a strict expression are those inside its operands. -/
lemma Expr.innerStmts_strict {e : Expr} (hstrict : e.isStrict = true) (h : e.IsAssignable) :
    e.innerStmts = e.inTurn.flatMap fun a => a.value.innerStmts := by
  cases e with
  | assign | increment =>
    simp only [Expr.innerStmts, Expr.inTurn, innerStmts_target h, List.flatMap_append,
      List.flatMap_cons, List.flatMap_nil, Argument.value, List.append_nil]
  | conditional | lambda => cases hstrict
  | _ =>
    simp only [Expr.innerStmts, Expr.inTurn, optionalStmts_eq, argumentsStmts_eq, elementsStmts_eq,
      List.flatMap_append, List.flatMap_cons, List.flatMap_nil, Argument.value, List.append_nil]

end Source

namespace Lowering

open Source

variable (c : Context)

lemma isIntegerDivision_prune (op : BinaryOp) (left right : Source.Expr) :
    isIntegerDivision op left.prune right.prune = isIntegerDivision op left right := by
  simp only [isIntegerDivision, Expr.type_prune]

lemma placeReceiver_prune (id : MemberId) (target : Option Source.Expr)
    (operands : List Script.Expr) :
    placeReceiver c id (pruneOptional target) operands = placeReceiver c id target operands := by
  cases target with
  | none => simp only [pruneOptional]
  | some e => simp only [placeReceiver, pruneOptional, Option.isSome_some]

lemma placeOf_prune (target : Source.Expr) (operands : List Script.Expr) :
    placeOf c target.prune operands = placeOf c target operands := by
  cases target <;> simp only [Expr.prune, placeOf, placeReceiver_prune]

lemma announce_prune (e : Source.Expr) : announce e.prune = announce e := by
  cases e <;> simp only [Expr.prune, announce, announceTarget, Expr.isTarget_prune]

/-- A pruned expression is completed like the expression itself. -/
theorem complete_prune (e : Source.Expr) : complete c e.prune = complete c e := by
  funext important operands
  cases e with
  | call i target id arguments =>
    cases target <;> simp only [Expr.prune, complete, pruneOptional, Option.isSome_none,
      Option.isSome_some, placeReceiver]
  | _ =>
    simp only [Expr.prune, complete, placeReceiver_prune, placeOf_prune, assignPlace,
      isIntegerDivision_prune]

end Lowering

end ScriptCompiler
