import ScriptCompiler.Proofs.Temporaries.Operations

/-!
# Images of calls, creations and functions

Every call, every creation of an object or of an array and every function of a script is an `Image`.
`Script.Expr.images` lists them, also inside function bodies.  A call through the name of a field is a
call of the value in it, so the lists depend on the names that count as fields.

On the side of the source, `images` lists what the nodes of a tree become: one image for each
invocation, creation and lambda, and those of the accessors and of the bindings of `this` that nobody
wrote.

A function without `this` counts as a value that may be written twice.  `Context.copiedBy` lists the
functions that a node writes once more: the value of an assignment through a setter that is used
further on, and the sub-expressions of a place that is read and then written.  `written` adds what is
inside of them.
-/

namespace ScriptCompiler

namespace Script

/-- A call, a creation or a function of a script. -/
inductive Image where
  /-- A call of the method with that name. -/
  | method (name : String) (arguments : Nat)
  /-- A call of a value. -/
  | delegate (arguments : Nat)
  | new (constructor : Expr) (arguments : Nat)
  | array (items : Nat)
  | function (parameters : List String)

/-- A call through a member, which is a method or the value of a field. -/
def Image.ofMember (fields : String → Bool) (name : String) (arguments : Nat) : Image :=
  if fields name then .delegate arguments else .method name arguments

/-- A call of the callee. -/
def Image.ofCallee (fields : String → Bool) (callee : Expr) (arguments : Nat) : Image :=
  match callee with
  | .member _ name => .ofMember fields name arguments
  | _ => .delegate arguments

variable (fields : String → Bool)

mutual

/-- The images in an expression. -/
@[simp, grind =]
def Expr.images : Expr → List Image
  | .null | .boolean _ | .number _ | .string _ | .ident _ | .this => []
  | .member target _ => target.images
  | .index target key => target.images ++ key.images
  | .call target arguments =>
    [.ofCallee fields target arguments.length] ++ (target.images ++ exprsImages arguments)
  | .new constructor arguments =>
    [.new constructor arguments.length] ++ (constructor.images ++ exprsImages arguments)
  | .object properties => propertiesImages properties
  | .array items => [.array items.length] ++ exprsImages items
  | .binary _ left right => left.images ++ right.images
  | .unary _ operand | .update _ operand => operand.images
  | .assign _ target value => target.images ++ value.images
  | .conditional condition whenTrue whenFalse =>
    condition.images ++ (whenTrue.images ++ whenFalse.images)
  | .function _ parameters body => [.function parameters] ++ stmtsImages body
  | .comma items => exprsImages items

/-- The images in several expressions. -/
@[simp, grind =]
def exprsImages : List Expr → List Image
  | [] => []
  | e :: rest => e.images ++ exprsImages rest

/-- The images in the values of an object literal. -/
@[simp, grind =]
def propertiesImages : List Property → List Image
  | [] => []
  | .mk _ value :: rest => value.images ++ propertiesImages rest

/-- The images in an expression that may be missing. -/
@[simp, grind =]
def optionalImages : Option Expr → List Image
  | none => []
  | some e => e.images

/-- The images in bindings. -/
@[simp, grind =]
def bindingsImages : List Binding → List Image
  | [] => []
  | .mk _ initializer :: rest => optionalImages initializer ++ bindingsImages rest

/-- The images in a statement. -/
@[simp, grind =]
def Stmt.images : Stmt → List Image
  | .comment _ | .break | .continue | .empty => []
  | .declare bindings => bindingsImages bindings
  | .expr value | .throw value => value.images
  | .block body => stmtsImages body
  | .return value => optionalImages value
  | .branch condition thenBranch elseBranch =>
    condition.images ++ (thenBranch.images ++ elseImages elseBranch)
  | .whileLoop condition body => condition.images ++ body.images
  | .doWhile body condition => body.images ++ condition.images

/-- The images in an else branch. -/
@[simp, grind =]
def elseImages : Option Stmt → List Image
  | none => []
  | some s => s.images

/-- The images in several statements. -/
@[simp, grind =]
def stmtsImages : List Stmt → List Image
  | [] => []
  | s :: rest => s.images ++ stmtsImages rest

end

@[grind =]
lemma exprsImages_append (xs ys : List Expr) :
    exprsImages fields (xs ++ ys) = exprsImages fields xs ++ exprsImages fields ys := by
  induction xs with
  | nil => rfl
  | cons e rest ih => rw [List.cons_append, exprsImages, exprsImages, ih, List.append_assoc]

@[grind =]
lemma bindingsImages_append (xs ys : List Binding) :
    bindingsImages fields (xs ++ ys) = bindingsImages fields xs ++ bindingsImages fields ys := by
  induction xs with
  | nil => rfl
  | cons b rest ih =>
    obtain ⟨name, initializer⟩ := b
    rw [List.cons_append, bindingsImages, bindingsImages, ih, List.append_assoc]

@[grind =]
lemma stmtsImages_append (xs ys : List Stmt) :
    stmtsImages fields (xs ++ ys) = stmtsImages fields xs ++ stmtsImages fields ys := by
  induction xs with
  | nil => rfl
  | cons s rest ih => rw [List.cons_append, stmtsImages, stmtsImages, ih, List.append_assoc]

/-- The images that are written again wherever a stable value is used. -/
def Expr.stableImages (e : Expr) : List Image :=
  if e.isPure then e.images fields else []

/-- A member of another object is the value of a field, so a call of it is a call of a value. -/
def Expr.IsValue : Expr → Prop
  | .member _ name => fields name = true
  | _ => True

lemma Expr.IsValue.ofCallee {fields : String → Bool} {e : Expr} (h : e.IsValue fields) (n : Nat) :
    Image.ofCallee fields e n = .delegate n := by
  cases e with
  | member target name => exact if_pos h
  | _ => rfl

end Script

namespace Source

/-- Whether the values of the parts of a node are used. -/
def Node.usesParts : Node → Bool
  | .stmt (.expr ..) => false
  | .expr (.lambda _ _ _ (.expr value)) => !value.type.isVoid
  | _ => true

end Source

namespace Lowering

open Script (Image)
open Source (Node Argument)

/-! ## Images of the source -/

namespace Context

variable (c : Context)

/-- Fields, properties kept in fields, and the field of the container of a variable. -/
def IsFieldName (name : String) : Prop :=
  name = c.options.referenceField ∨
    ∃ id, c.formOf id = .field name ∨ c.formOf id = .fieldProperty name

/-- Whether the function is bound where it stands. -/
def binds (id : LambdaId) : Bool :=
  (c.lambdas.get? id).any (·.usesThis)

/-- The access to a member with that many arguments, if it is behind accessors. -/
def accessTo (id : MemberId) (arguments : Nat) : Option (MemberId × Nat) :=
  if hasAccessors (c.formOf id) then some (id, arguments) else none

/-- The access behind accessors that the expression is. -/
def accessOf : Source.Expr → Option (MemberId × Nat)
  | .property _ _ id => c.accessTo id 0
  | .indexer _ _ id arguments => c.accessTo id arguments.length
  | _ => none

/-- The constructor that creates an object. -/
def constructorOf (id : MemberId) : Script.Expr :=
  let member := (c.program.member? id).getD default
  let type := dottedName ((c.naming.typeName? c.program member.declaringType).getD default)
  match c.formOf id with
  | .constructor (some name) => .member type name
  | _ => type

/-- The function that an expression has as its value, if it needs no `this`.  An assignment through a
setter has the value that is assigned. -/
def yields : Source.Expr → Option Source.Expr
  | .lambda i id parameters body =>
    if c.binds id then none else some (.lambda i id parameters body)
  | .assign _ none target value => if (c.accessOf target).isSome then yields value else none
  | _ => none

/-- Whether the target of an assignment is read and then written, so that its sub-expressions are
written twice. -/
def stabilizes (op : Source.BinaryOp) (target value : Source.Expr) : Bool :=
  (c.accessOf target).isSome || isIntegerDivision op target value

/-- The functions among the sub-expressions of a target. -/
def functionsIn (target : Source.Expr) : List Source.Expr :=
  target.operands.filterMap fun a => c.yields a.value

/-- The functions that an expression itself writes once more. -/
def copiedBy (important : Bool) : Source.Expr → List Source.Expr
  | .assign _ none target value =>
    if important && (c.accessOf target).isSome then (c.yields value).toList else []
  | .assign _ (some op) target value =>
    if c.stabilizes op target value then c.functionsIn target else []
  | .increment _ _ target => if (c.accessOf target).isSome then c.functionsIn target else []
  | _ => []

end Context

variable (c : Context) (fields : String → Bool)

/-- What reading a member behind accessors becomes. -/
def getterImages : Option (MemberId × Nat) → List Image
  | none => []
  | some (id, arguments) =>
    match c.formOf id with
    | .property getter _ => [.ofMember fields getter arguments]
    | _ => []

/-- What writing a member behind accessors becomes. -/
def setterImages : Option (MemberId × Nat) → List Image
  | none => []
  | some (id, arguments) =>
    match c.formOf id with
    | .property _ setter => [.ofMember fields setter (arguments + 1)]
    | _ => []

/-- What the call of a method becomes. -/
def methodImages (id : MemberId) (arguments : Nat) : List Image :=
  match c.formOf id with
  | .method name => [.ofMember fields name arguments]
  | _ => []

/-- What a lambda becomes, without its body. -/
def lambdaImages (id : LambdaId) (parameters : List VariableId) : List Image :=
  (if c.binds id then [.ofMember fields "bind" 1] else []) ++
    [.function (parameters.map c.variableName)]

/-- What an expression itself becomes. -/
def exprImages : Source.Expr → List Image
  | .property i target id => getterImages c fields (c.accessOf (.property i target id))
  | .indexer i target id arguments =>
    getterImages c fields (c.accessOf (.indexer i target id arguments))
  | .call _ _ id arguments => methodImages c fields id arguments.length
  | .delegateCall _ _ arguments => [.delegate arguments.length]
  | .create _ id arguments => [.new (c.constructorOf id) arguments.length]
  | .createArray _ elements => [.array elements.length]
  | .assign _ op target _ =>
    setterImages c fields (c.accessOf target) ++
      if op.isSome then getterImages c fields (c.accessOf target) else []
  | .increment _ _ target =>
    setterImages c fields (c.accessOf target) ++ getterImages c fields (c.accessOf target)
  | .lambda _ id parameters _ => lambdaImages c fields id parameters
  | _ => []

/-- What a node itself becomes. -/
def ownImages : Node → List Image
  | .expr e => exprImages c fields e
  | .stmt _ => []

/-- What a node and everything inside it become, each once. -/
def images (n : Node) : List Image :=
  n.nodes.flatMap (ownImages c fields)

lemma images_eq (n : Node) :
    images c fields n = ownImages c fields n ++ n.parts.flatMap (images c fields) := by
  rw [images, Node.nodes_eq, List.flatMap_cons, List.flatMap_assoc]
  rfl

/-! ## Functions that are copied -/

/-- The functions that a node itself writes once more. -/
def nodeCopies (important : Bool) : Node → List Source.Expr
  | .expr e => c.copiedBy important e
  | .stmt _ => []

/-- The functions that are written once more in a node, with everything inside it. -/
def copied (important : Bool) (n : Node) : List Source.Expr :=
  nodeCopies c important n ++ n.parts.attach.flatMap fun part => copied n.usesParts part.1
termination_by sizeOf n
decreasing_by exact Source.sizeOf_lt_of_mem_parts part.2

lemma copied_eq (important : Bool) (n : Node) :
    copied c important n = nodeCopies c important n ++ n.parts.flatMap (copied c n.usesParts) := by
  rw [copied]
  simp [List.flatMap_subtype]

variable {c}

/-- A function that stands as a value is a lambda inside the expression. -/
lemma exists_lambda_of_yields {e f : Source.Expr} (h : c.yields e = some f) :
    (∃ i id parameters body, f = .lambda i id parameters body) ∧ sizeOf f ≤ sizeOf e := by
  fun_induction Context.yields c e with
  | case1 => cases h
  | case2 i id parameters body =>
    cases h
    exact ⟨⟨i, id, parameters, body, rfl⟩, le_refl _⟩
  | case3 i target value haccess ih =>
    obtain ⟨hlambda, hsize⟩ := ih h
    refine ⟨hlambda, ?_⟩
    simp only [Source.Expr.assign.sizeOf_spec]
    omega
  | case4 => cases h
  | case5 => cases h

lemma exists_lambda_of_mem_functionsIn {target f : Source.Expr} (h : f ∈ c.functionsIn target) :
    (∃ i id parameters body, f = .lambda i id parameters body) ∧ sizeOf f < sizeOf target := by
  obtain ⟨a, ha, hf⟩ := List.mem_filterMap.mp h
  obtain ⟨hlambda, hsize⟩ := exists_lambda_of_yields hf
  exact ⟨hlambda, lt_of_le_of_lt hsize (Source.sizeOf_lt_of_mem_operands ha)⟩

lemma exists_lambda_of_mem_copiedBy {important : Bool} {e f : Source.Expr}
    (h : f ∈ c.copiedBy important e) :
    (∃ i id parameters body, f = .lambda i id parameters body) ∧ sizeOf f < sizeOf e := by
  unfold Context.copiedBy at h
  split at h
  · split at h
    · obtain ⟨hlambda, hsize⟩ := exists_lambda_of_yields (Option.mem_toList.mp h)
      refine ⟨hlambda, ?_⟩
      simp only [Source.Expr.assign.sizeOf_spec]
      omega
    · cases h
  · split at h
    · obtain ⟨hlambda, hsize⟩ := exists_lambda_of_mem_functionsIn h
      refine ⟨hlambda, ?_⟩
      simp only [Source.Expr.assign.sizeOf_spec]
      omega
    · cases h
  · split at h
    · obtain ⟨hlambda, hsize⟩ := exists_lambda_of_mem_functionsIn h
      refine ⟨hlambda, ?_⟩
      simp only [Source.Expr.increment.sizeOf_spec]
      omega
    · cases h
  · cases h

/-- What is copied in a node is a lambda inside it. -/
lemma exists_lambda_of_mem_copied {important : Bool} {n : Node} {f : Source.Expr}
    (h : f ∈ copied c important n) :
    (∃ i id parameters body, f = .lambda i id parameters body) ∧
      sizeOf (Node.expr f) < sizeOf n := by
  induction hsize : sizeOf n using Nat.strong_induction_on generalizing n important with
  | _ size ih =>
    subst hsize
    rw [copied_eq] at h
    rcases List.mem_append.mp h with h | h
    · cases n with
      | stmt t => cases h
      | expr e =>
        obtain ⟨hlambda, hsize⟩ := exists_lambda_of_mem_copiedBy h
        exact ⟨hlambda, Nat.add_lt_add_left hsize 1⟩
    · obtain ⟨part, hpart, hf⟩ := List.mem_flatMap.mp h
      have hlt := Source.sizeOf_lt_of_mem_parts hpart
      obtain ⟨hlambda, hsize⟩ := ih _ hlt hf rfl
      exact ⟨hlambda, hsize.trans hlt⟩

variable (c)

/-- What a node becomes: the images of everything inside it, and what the copied functions become. -/
def written (important : Bool) (n : Node) : List Image :=
  images c fields n ++ (copied c important n).attach.flatMap fun f => written true (.expr f.1)
termination_by sizeOf n
decreasing_by exact (exists_lambda_of_mem_copied f.2).2

/-- What several functions become. -/
def functionsWritten (functions : List Source.Expr) : List Image :=
  functions.flatMap fun f => written c fields true (.expr f)

lemma written_eq (important : Bool) (n : Node) :
    written c fields important n =
      images c fields n ++ functionsWritten c fields (copied c important n) := by
  rw [written, functionsWritten]
  simp [List.flatMap_subtype]

/-- A node becomes what it is itself, what it copies and what its parts become. -/
lemma countP_written (p : Image → Bool) (important : Bool) (n : Node) :
    (written c fields important n).countP p = (ownImages c fields n).countP p +
      (functionsWritten c fields (nodeCopies c important n)).countP p +
        (n.parts.flatMap (written c fields n.usesParts)).countP p := by
  have hparts : (n.parts.flatMap (written c fields n.usesParts)).countP p =
      (n.parts.flatMap (images c fields)).countP p +
        (functionsWritten c fields (n.parts.flatMap (copied c n.usesParts))).countP p := by
    have hperm := List.flatMap_append_perm n.parts (images c fields)
      fun part => functionsWritten c fields (copied c n.usesParts part)
    simp only [← written_eq] at hperm
    rw [← hperm.countP_eq, List.countP_append, functionsWritten, List.flatMap_assoc]
    rfl
  rw [written_eq, images_eq, copied_eq, hparts]
  simp only [functionsWritten, List.flatMap_append, List.countP_append]
  omega

/-- A node becomes its images and nothing more exactly if nothing is copied in it. -/
lemma perm_images_iff (important : Bool) (n : Node) :
    (written c fields important n).Perm (images c fields n) ↔ copied c important n = [] := by
  rw [written_eq]
  constructor
  · intro h
    have hlength := h.length_eq
    rw [List.length_append] at hlength
    refine List.eq_nil_iff_forall_not_mem.mpr fun f hf => ?_
    obtain ⟨⟨i, id, parameters, body, rfl⟩, -⟩ := exists_lambda_of_mem_copied hf
    have hfunction : Image.function (parameters.map c.variableName) ∈
        functionsWritten c fields (copied c important n) := by
      refine List.mem_flatMap.mpr ⟨_, hf, ?_⟩
      rw [written_eq, images_eq]
      exact List.mem_append_left _ (List.mem_append_left _
        (List.mem_append_right _ List.mem_cons_self))
    have hpos := List.length_pos_of_mem hfunction
    omega
  · intro h
    rw [h, functionsWritten, List.flatMap_nil, List.append_nil]

end Lowering

end ScriptCompiler
