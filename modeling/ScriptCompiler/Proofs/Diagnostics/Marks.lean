import Mathlib.Data.List.Perm.Subperm
import ScriptCompiler.Proofs.Comments.Layout
import ScriptCompiler.Proofs.Diagnostics.Visits

/-!
# What a body leaves in its script

A `Mark` is what a construct contributes to a script apart from its parts: a constant, a name, a
call, an operator, a loop.  `Script.Stmt.marks` lists the marks of a script, also inside function
bodies.

`own` lists the marks that a node of the source tree is to leave itself, given the names and
forms of its context, and `leaves` adds those of everything inside it.  A choice leaves the same
mark as an operator, as an expression and as a branch, because an operator whose later operand needs
statements becomes a branch.  Besides expression statements, which leave the marks of their
expressions, only comments that are not taken over and declarations of nothing leave no mark
(`isRemark_of_own_eq_nil`).
-/

namespace ScriptCompiler

/-- What a construct contributes to a script, apart from its parts. -/
inductive Mark where
  | null
  | boolean (value : Bool)
  | number (value : Double)
  | string (value : String)
  | name (x : String)
  | this
  | member (name : String)
  | index
  | call
  | new
  | array
  /-- An operator that evaluates both operands. -/
  | operator (op : Script.BinaryOp)
  | unary (op : Script.UnaryOp)
  | update (op : Script.UpdateOp)
  | assign
  /-- A lazy operator, a conditional operator or a branch. -/
  | choice
  | function
  | declared (x : String)
  | comment (text : String)
  | block
  | return
  | whileLoop
  | doWhile
  | break
  | continue
  | throw
  | empty
deriving DecidableEq

/-- The mark of a binary operator. -/
def Mark.ofOperator : Script.BinaryOp → Mark
  | .logicalAnd | .logicalOr | .nullCoalescing => .choice
  | op => .operator op

namespace Script

mutual

/-- The marks of an expression. -/
def Expr.marks : Expr → List Mark
  | .null => [.null]
  | .boolean value => [.boolean value]
  | .number value => [.number value]
  | .string value => [.string value]
  | .ident x => [.name x]
  | .this => [.this]
  | .member target name => [.member name] ++ target.marks
  | .index target key => [.index] ++ (target.marks ++ key.marks)
  | .call target arguments => [.call] ++ (target.marks ++ exprsMarks arguments)
  | .new constructor arguments => [.new] ++ (constructor.marks ++ exprsMarks arguments)
  | .object properties => propertiesMarks properties
  | .array items => [.array] ++ exprsMarks items
  | .binary op left right => [.ofOperator op] ++ (left.marks ++ right.marks)
  | .unary op operand => [.unary op] ++ operand.marks
  | .update op operand => [.update op] ++ operand.marks
  | .assign op target value =>
    [.assign] ++ (op.toList.map .ofOperator ++ (target.marks ++ value.marks))
  | .conditional condition whenTrue whenFalse =>
    [.choice] ++ (condition.marks ++ (whenTrue.marks ++ whenFalse.marks))
  | .function _ parameters body => [.function] ++ (parameters.map .name ++ stmtsMarks body)
  | .comma items => exprsMarks items

/-- The marks of several expressions. -/
def exprsMarks : List Expr → List Mark
  | [] => []
  | e :: rest => e.marks ++ exprsMarks rest

/-- The marks of the values of an object literal. -/
def propertiesMarks : List Property → List Mark
  | [] => []
  | .mk _ value :: rest => value.marks ++ propertiesMarks rest

/-- The marks of an expression that may be missing. -/
def optionalMarks : Option Expr → List Mark
  | none => []
  | some e => e.marks

/-- The marks of bindings. -/
def bindingsMarks : List Binding → List Mark
  | [] => []
  | .mk name initializer :: rest => [.declared name] ++ (optionalMarks initializer ++ bindingsMarks rest)

/-- The marks of a statement. -/
def Stmt.marks : Stmt → List Mark
  | .comment text => [.comment text]
  | .declare bindings => bindingsMarks bindings
  | .expr value => value.marks
  | .block body => [.block] ++ stmtsMarks body
  | .return value => [.return] ++ optionalMarks value
  | .branch condition thenBranch elseBranch =>
    [.choice] ++ (condition.marks ++ (thenBranch.marks ++ elseMarks elseBranch))
  | .whileLoop condition body => [.whileLoop] ++ (condition.marks ++ body.marks)
  | .doWhile body condition => [.doWhile] ++ (body.marks ++ condition.marks)
  | .break => [.break]
  | .continue => [.continue]
  | .throw value => [.throw] ++ value.marks
  | .empty => [.empty]

/-- The marks of an else branch. -/
def elseMarks : Option Stmt → List Mark
  | none => []
  | some s => s.marks

/-- The marks of several statements. -/
def stmtsMarks : List Stmt → List Mark
  | [] => []
  | s :: rest => s.marks ++ stmtsMarks rest

end

lemma exprsMarks_append (xs ys : List Expr) :
    exprsMarks (xs ++ ys) = exprsMarks xs ++ exprsMarks ys := by
  induction xs with
  | nil => simp [exprsMarks]
  | cons e rest ih => simp only [List.cons_append, exprsMarks, ih, List.append_assoc]

lemma bindingsMarks_append (xs ys : List Binding) :
    bindingsMarks (xs ++ ys) = bindingsMarks xs ++ bindingsMarks ys := by
  induction xs with
  | nil => simp [bindingsMarks]
  | cons b rest ih =>
    obtain ⟨name, initializer⟩ := b
    simp only [List.cons_append, bindingsMarks, ih, List.append_assoc]

lemma stmtsMarks_append (xs ys : List Stmt) :
    stmtsMarks (xs ++ ys) = stmtsMarks xs ++ stmtsMarks ys := by
  induction xs with
  | nil => simp [stmtsMarks]
  | cons s rest ih => simp only [List.cons_append, stmtsMarks, ih, List.append_assoc]

attribute [grind =] Expr.marks exprsMarks optionalMarks bindingsMarks Stmt.marks elseMarks
  stmtsMarks exprsMarks_append bindingsMarks_append stmtsMarks_append Stmt.var Expr.set

end Script

namespace Lowering

open Source (Node)

/-! ## Forms and names of a context -/

/-- Whether a member of the form is behind a getter and a setter. -/
def hasAccessors : MemberForm → Bool
  | .property .. => true
  | _ => false

namespace Context

variable (c : Context)

/-- The form of a member, with the stand-in that lowering uses for a member outside the program. -/
def formOf (id : MemberId) : MemberForm :=
  (c.naming.form? c.program id).getD default

/-- A variable leaves its name. -/
def nameMarks (id : VariableId) : List Mark :=
  (c.scope.get? id).toList.map fun v => .name v.name

/-- A type leaves the parts of its dotted name. -/
def typeMarks (id : TypeId) : List Mark :=
  (c.naming.typeName? c.program id).toList.flatMap fun name => (dottedName name).marks

/-- The object of an access without target leaves the name of the type or `this`. -/
def receiverMarks (id : MemberId) : List Mark :=
  (c.program.member? id).toList.flatMap fun m =>
    if m.isStatic then c.typeMarks m.declaringType else [.this]

/-- The member behind accessors that the expression denotes, if it does. -/
def accessorOf : Source.Expr → Option MemberId
  | .property _ _ id | .indexer _ _ id _ =>
    if hasAccessors (c.formOf id) then some id else none
  | _ => none

/-- A member behind accessors has a getter and a setter. -/
lemma formOf_of_accessorOf {e : Source.Expr} {id : MemberId} (h : c.accessorOf e = some id) :
    ∃ getter setter, c.formOf id = .property getter setter := by
  have hform : hasAccessors (c.formOf id) = true := by
    cases e with
    | property i target other | indexer i target other arguments =>
      obtain ⟨hother, heq⟩ := Option.ite_none_right_eq_some.mp h
      cases heq
      exact hother
    | _ => cases h
  cases hmember : c.formOf id with
  | property getter setter => exact ⟨getter, setter, rfl⟩
  | _ =>
    rw [hmember] at hform
    cases hform

end Context

/-- What reading a member of the given form leaves. -/
def readMarks : MemberForm → List Mark
  | .property getter _ => [.member getter, .call]
  | .field name | .fieldProperty name => [.member name]
  | .nativeIndexer => [.index]
  | .method _ | .event .. | .constructor _ => []

variable (c : Context)

/-- What writing to a place leaves: a call of its setter, or an assignment. -/
def storeMarks : Option MemberId → List Mark
  | none => [.assign]
  | some id =>
    match c.formOf id with
    | .property _ setter => [.member setter, .call]
    | _ => []

/-- What reading from a place leaves beside its location. -/
def loadMarks : Option MemberId → List Mark
  | none => []
  | some id => readMarks (c.formOf id)

/-- What the object of an access leaves if it is not written out. -/
def implicitMarks (target : Option Source.Expr) (id : MemberId) : List Mark :=
  if target.isSome then [] else c.receiverMarks id

/-- What the implicit object of an expression leaves. -/
def objectMarks : Source.Expr → List Mark
  | .field _ target id | .property _ target id | .call _ target id _ => implicitMarks c target id
  | _ => []

/-- What an access to a variable, a member or an element leaves. -/
def accessMarks : Source.Expr → List Mark
  | .localVar _ id => c.nameMarks id
  | .field _ _ id | .property _ _ id | .indexer _ _ id _ => readMarks (c.formOf id)
  | .element .. => [.index]
  | _ => []

/-- What the target of an assignment leaves if it is not behind accessors. -/
def locationMarks (target : Source.Expr) : List Mark :=
  match c.accessorOf target with
  | some _ => []
  | none => accessMarks c target

/-- The location of a member leaves what reading it leaves, unless it is behind accessors. -/
lemma locationMarks_eq {e : Source.Expr} {id : MemberId}
    (haccessor : c.accessorOf e = if hasAccessors (c.formOf id) then some id else none)
    (haccess : accessMarks c e = readMarks (c.formOf id)) :
    locationMarks c e = if hasAccessors (c.formOf id) then [] else readMarks (c.formOf id) := by
  unfold locationMarks
  rw [haccessor, haccess]
  cases hasAccessors (c.formOf id) <;> rfl

/-- What an increment of a location leaves. -/
def stepMark : Source.IncrementKind → Mark
  | .preIncrement => .unary .preIncrement
  | .preDecrement => .unary .preDecrement
  | .postIncrement => .update .increment
  | .postDecrement => .update .decrement

/-- What an operator on the old value of a place leaves. -/
def updateMarks (place : Option MemberId) (op : Source.BinaryOp) : List Mark :=
  loadMarks c place ++ [.ofOperator (binaryOp op)]

/-- What an increment of a place leaves. -/
def incrementMarks (place : Option MemberId) (kind : Source.IncrementKind) : List Mark :=
  match place with
  | none => [stepMark kind]
  | some id =>
    storeMarks c (some id) ++ updateMarks c (some id) (if kind.isIncrement then .add else .subtract)

/-- The method name of a member. -/
def methodMarks : MemberForm → List Mark
  | .method name => [.member name]
  | _ => []

/-- What creating an object leaves: the names of its type and of its constructor. -/
def createMarks (id : MemberId) : List Mark :=
  [.new] ++ ((c.program.member? id).toList.flatMap fun m => c.typeMarks m.declaringType) ++
    match c.formOf id with
    | .constructor (some name) => [.member name]
    | _ => []

/-- What an expression itself leaves. -/
def exprOwn : Source.Expr → List Mark
  | .constant _ value => (constantExpr value).marks
  | .this _ => [.this]
  | .call i target id arguments =>
    [.call] ++ (methodMarks (c.formOf id) ++ objectMarks c (.call i target id arguments))
  | .delegateCall .. => [.call]
  | .create _ id _ => createMarks c id
  | .createArray .. => [.array]
  | .binary _ op _ _ => [.ofOperator (binaryOp op)]
  | .unary _ op _ => [.unary (unaryOp op)]
  | .assign _ op target _ =>
    storeMarks c (c.accessorOf target) ++
      (op.toList.flatMap (updateMarks c (c.accessorOf target)) ++
        (objectMarks c target ++ locationMarks c target))
  | .increment _ kind target =>
    incrementMarks c (c.accessorOf target) kind ++ (objectMarks c target ++ locationMarks c target)
  | .conditional .. => [.choice]
  | .lambda _ _ parameters _ => [.function] ++ parameters.flatMap c.nameMarks
  | e => accessMarks c e ++ objectMarks c e

/-- What a comment leaves. -/
def commentMarks (kind : CommentKind) (content : String) : List Mark :=
  match kind with
  | .singleLine => [.comment content]
  | .multiLine => (reformatComment content c.options.lineSeparator.text).toList.map .comment
  | .documentation | .multiLineDocumentation | .inactiveCode => []

/-- What a declarator itself leaves. -/
def declaredMarks (d : Source.Declarator) : List Mark :=
  (c.scope.get? d.id).toList.map fun v => .declared v.name

/-- What a statement itself leaves. -/
def stmtOwn : Source.Stmt → List Mark
  | .comment _ kind content => commentMarks c kind content
  | .declare _ declarators => declarators.flatMap (declaredMarks c)
  | .expr .. | .unsupported .. => []
  | .block .. | .checked .. | .unchecked .. => [.block]
  | .return .. => [.return]
  | .branch .. => [.choice]
  | .whileLoop .. => [.whileLoop]
  | .doWhile .. => [.doWhile]
  | .break _ => [.break]
  | .continue _ => [.continue]
  | .throw .. => [.throw]
  | .empty _ => [.empty]

/-- What a node itself leaves. -/
def own : Node → List Mark
  | .expr e => exprOwn c e
  | .stmt t => stmtOwn c t

/-- What a node leaves, with everything inside it. -/
def leaves (n : Node) : List Mark :=
  own c n ++ n.parts.attach.flatMap fun part => leaves part.1
termination_by sizeOf n
decreasing_by exact Source.sizeOf_lt_of_mem_parts part.2

lemma leaves_eq (n : Node) : leaves c n = own c n ++ n.parts.flatMap (leaves c) := by
  rw [leaves]
  simp [List.flatMap_subtype]

/-- The declaration of bindings keeps them. -/
@[grind =]
lemma stmtsMarks_flush (bindings : List Script.Binding) :
    Script.stmtsMarks (flush bindings) = Script.bindingsMarks bindings := by
  cases bindings <;> simp [flush, Script.stmtsMarks, Script.Stmt.marks, Script.bindingsMarks]

/-! ## Nodes that leave nothing -/

/-- Documentation, code switched off, blank comments, and declarations of nothing. -/
def IsRemark : Node → Prop
  | .stmt (.comment _ kind content) =>
    kind ∈ [.documentation, .multiLineDocumentation, .inactiveCode] ∨
      kind = .multiLine ∧ ∀ x ∈ content.toList, Text.isBlank x = true
  | .stmt (.declare _ []) => True
  | _ => False

/-- Every proper node leaves a mark of its own, apart from expression statements and remarks. -/
theorem isRemark_of_own_eq_nil {c : Context} {n : Node} (hproper : Proper c n)
    (h : own c n = []) : IsRemark n ∨ ∃ span value, n = .stmt (.expr span value) := by
  have hname : ∀ {id : VariableId}, c.Describes id → c.nameMarks id ≠ [] := by
    intro id hid
    obtain ⟨v, hv⟩ := Option.isSome_iff_exists.mp hid
    simp [Context.nameMarks, hv]
  have hfield : ∀ {id : MemberId}, c.IsField id → readMarks (c.formOf id) ≠ [] := by
    rintro id ⟨name, hform | hform⟩ <;> simp [Context.formOf, hform, readMarks]
  have hproperty : ∀ {id : MemberId}, c.IsProperty id → readMarks (c.formOf id) ≠ [] := by
    rintro id (⟨getter, setter, hform⟩ | hfields | hform)
    · simp [Context.formOf, hform, readMarks]
    · exact hfield hfields
    · simp [Context.formOf, hform, readMarks]
  have hstore : ∀ target, storeMarks c (c.accessorOf target) ≠ [] := by
    intro target
    cases haccessor : c.accessorOf target with
    | none => exact List.cons_ne_nil _ _
    | some id =>
      obtain ⟨getter, setter, hform⟩ := c.formOf_of_accessorOf haccessor
      simp [storeMarks, hform]
  cases n with
  | expr e =>
    exfalso
    cases e with
    | constant i value => cases value <;> cases h
    | localVar i id => exact hname hproper.1 (List.append_eq_nil_iff.mp h).1
    | field i target id => exact hfield hproper.1 (List.append_eq_nil_iff.mp h).1
    | property i target id | indexer i target id arguments =>
      exact hproperty hproper.1 (List.append_eq_nil_iff.mp h).1
    | assign i op target value => exact hstore target (List.append_eq_nil_iff.mp h).1
    | increment i kind target =>
      have hmarks := (List.append_eq_nil_iff.mp h).1
      have hstored := hstore target
      cases haccessor : c.accessorOf target with
      | none =>
        rw [haccessor] at hmarks
        cases hmarks
      | some id =>
        rw [haccessor] at hmarks hstored
        exact hstored (List.append_eq_nil_iff.mp hmarks).1
    | _ => cases h
  | stmt t =>
    cases t with
    | comment span kind content =>
      refine .inl ?_
      cases kind with
      | singleLine => cases h
      | multiLine =>
        have hnone : reformatComment content c.options.lineSeparator.text = none := by
          simpa [own, stmtOwn, commentMarks] using h
        exact .inr ⟨rfl, (reformatComment_eq_none_iff _ _).mp hnone⟩
      | _ => exact .inl (by simp)
    | declare span declarators =>
      cases declarators with
      | nil => exact .inl trivial
      | cons d rest =>
        obtain ⟨v, hv⟩ := Option.isSome_iff_exists.mp (hproper d List.mem_cons_self)
        simp [own, stmtOwn, declaredMarks, hv] at h
    | expr span value => exact .inr ⟨span, value, rfl⟩
    | unsupported span construct => exact hproper.elim
    | _ => cases h

end Lowering

end ScriptCompiler
