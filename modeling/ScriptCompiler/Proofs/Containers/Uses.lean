import ScriptCompiler.Script.Tree

/-!
# What names are used for

The uses of a script list its identifiers, also those inside functions, each with its role: the object
of a member, an argument, the value that another name is given, the target of an assignment, a name
that is declared, or anything else.

A function may begin with entry statements `x = { field: x }` for its parameters.  They are recorded
as one use of the parameter.
-/

namespace ScriptCompiler.Script

/-- What an identifier is used for. -/
inductive Role where
  /-- Anything that is not listed below. -/
  | value
  /-- `x.name` -/
  | object (name : String)
  /-- An argument of a call or of a creation, or the key of an index. -/
  | argument
  /-- The whole value that the target is declared with or that is assigned to it. -/
  | given (target : String)
  /-- `x = value`, or `x op= value` -/
  | target (op : Option BinaryOp) (value : Expr)
  /-- `x++`, `x--`, `++x` or `--x` -/
  | stepped
  /-- `var x = initializer` -/
  | declared (initializer : Option Expr)
  /-- `x = { field: x }` at the entry of a function with the parameter `x` -/
  | entry (field : String)

/-- An identifier and what it is used for. -/
structure Use where
  name : String
  role : Role

/-- The roles of a container that nothing but its variable is kept in: the field, the entry of a
function, a declaration, and an argument, at once or through a name that stands in for it. -/
inductive ContainerRole (field : String) (passed : Prop) (standIn : String → Prop) : Role → Prop where
  | object : ContainerRole field passed standIn (.object field)
  | entry : ContainerRole field passed standIn (.entry field)
  | argument (h : passed) : ContainerRole field passed standIn .argument
  | given {t : String} (h : standIn t) : ContainerRole field passed standIn (.given t)
  | declared (value : Expr) :
    ContainerRole field passed standIn (.declared (some (.object [.mk field value])))

/-- The roles of a name that stands in for the argument `n`. -/
inductive StandInRole (n : String) : Role → Prop where
  | argument : StandInRole n .argument
  | declared : StandInRole n (.declared (some (.ident n)))
  | assigned : StandInRole n (.target none (.ident n))
  | announced : StandInRole n (.declared none)

/-- The role of an identifier that is assigned to the target. -/
def assignedRole (op : Option BinaryOp) : Expr → Role
  | .ident x => if op.isNone then .given x else .value
  | _ => .value

/-- The role of an identifier under a unary operator. -/
def operandRole (op : UnaryOp) : Role :=
  if op.isUpdate then .stepped else .value

/-- The use of a parameter by an entry statement. -/
def entry? (parameters : List String) : Stmt → Option Use
  | .expr (.assign none (.ident x) (.object [.mk field (.ident y)])) =>
    if x = y ∧ x ∈ parameters then some ⟨x, .entry field⟩ else none
  | _ => none

mutual

/-- The uses in an expression that stands in the given role. -/
@[simp]
def Expr.uses : Expr → Role → List Use
  | .null, _ | .boolean _, _ | .number _, _ | .string _, _ | .this, _ => []
  | .ident x, role => [⟨x, role⟩]
  | .member target name, _ => target.uses (.object name)
  | .index target key, _ => target.uses .value ++ key.uses .argument
  | .call target arguments, _ => target.uses .value ++ exprsUses arguments .argument
  | .new constructor arguments, _ => constructor.uses .value ++ exprsUses arguments .argument
  | .object properties, _ => propertiesUses properties
  | .array items, _ | .comma items, _ => exprsUses items .value
  | .binary _ left right, _ => left.uses .value ++ right.uses .value
  | .unary op operand, _ => operand.uses (operandRole op)
  | .update _ operand, _ => operand.uses .stepped
  | .assign op target value, _ => target.uses (.target op value) ++ value.uses (assignedRole op target)
  | .conditional condition whenTrue whenFalse, _ =>
    condition.uses .value ++ (whenTrue.uses .value ++ whenFalse.uses .value)
  | .function _ parameters body, _ => bodyUses parameters body

/-- The uses in expressions that stand in one role. -/
@[simp]
def exprsUses : List Expr → Role → List Use
  | [], _ => []
  | e :: rest, role => e.uses role ++ exprsUses rest role

/-- The uses in the values of an object literal. -/
@[simp]
def propertiesUses : List Property → List Use
  | [] => []
  | .mk _ value :: rest => value.uses .value ++ propertiesUses rest

/-- The uses in an expression that may be missing. -/
@[simp]
def optionalUses : Option Expr → Role → List Use
  | none, _ => []
  | some e, role => e.uses role

/-- The uses in bindings. -/
@[simp]
def bindingsUses : List Binding → List Use
  | [] => []
  | .mk name initializer :: rest =>
    ⟨name, .declared initializer⟩ :: (optionalUses initializer (.given name) ++ bindingsUses rest)

/-- The uses in a statement. -/
@[simp]
def Stmt.uses : Stmt → List Use
  | .comment _ | .break | .continue | .empty => []
  | .declare bindings => bindingsUses bindings
  | .expr value | .throw value => value.uses .value
  | .block body => stmtsUses body
  | .return value => optionalUses value .value
  | .branch condition thenBranch elseBranch =>
    condition.uses .value ++ (thenBranch.uses ++ elseUses elseBranch)
  | .whileLoop condition body => condition.uses .value ++ body.uses
  | .doWhile body condition => body.uses ++ condition.uses .value

/-- The uses in an else branch. -/
@[simp]
def elseUses : Option Stmt → List Use
  | none => []
  | some s => s.uses

/-- The uses in statements that follow each other. -/
@[simp]
def stmtsUses : List Stmt → List Use
  | [] => []
  | s :: rest => s.uses ++ stmtsUses rest

/-- The uses in the body of a function with the given parameters. -/
@[simp]
def bodyUses (parameters : List String) : List Stmt → List Use
  | [] => []
  | s :: rest =>
    match entry? parameters s with
    | some u => u :: bodyUses parameters rest
    | none => s.uses ++ stmtsUses rest

end

/-- An entry statement wraps one parameter. -/
theorem eq_of_entry? {parameters : List String} {s : Stmt} {u : Use}
    (h : entry? parameters s = some u) :
    ∃ x field, s = .expr (.assign none (.ident x) (.object [.mk field (.ident x)])) ∧
      u = ⟨x, .entry field⟩ := by
  unfold entry? at h
  split at h
  · rename_i x field y
    split at h
    · rename_i hx
      obtain rfl := hx.1
      exact ⟨x, field, rfl, (Option.some.inj h).symm⟩
    · cases h
  · cases h

theorem exprsUses_append (xs ys : List Expr) (role : Role) :
    exprsUses (xs ++ ys) role = exprsUses xs role ++ exprsUses ys role := by
  induction xs with
  | nil => simp
  | cons e rest ih => simp only [List.cons_append, exprsUses, ih, List.append_assoc]

theorem stmtsUses_append (xs ys : List Stmt) :
    stmtsUses (xs ++ ys) = stmtsUses xs ++ stmtsUses ys := by
  induction xs with
  | nil => simp
  | cons s rest ih => simp only [List.cons_append, stmtsUses, ih, List.append_assoc]

theorem bindingsUses_append (xs ys : List Binding) :
    bindingsUses (xs ++ ys) = bindingsUses xs ++ bindingsUses ys := by
  induction xs with
  | nil => simp
  | cons b rest ih =>
    obtain ⟨name, initializer⟩ := b
    simp only [List.cons_append, bindingsUses, ih, List.append_assoc, List.cons_append]

end ScriptCompiler.Script
