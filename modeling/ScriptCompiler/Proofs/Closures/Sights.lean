import Mathlib.Data.List.Basic
import ScriptCompiler.Script.Tree

/-!
# What stands inside function expressions

The sights of a script are its uses of `this` and its function expressions, wherever they stand.  A
`this` comes with the functions around it, and of each of them it is noted whether it is bound, which
means that it stands as `(function ...).bind(this)`.

`Expr.Only` says that all sights of an expression satisfy a property.  A property that a binding
cannot break is passed on from the parts of an expression or a statement to the whole.
-/

namespace ScriptCompiler.Script

/-- A use of `this` or a function expression. -/
inductive Sight where
  /-- A use of `this`; from the outermost of the functions around it to the innermost, whether the
  function is bound. -/
  | this (within : List Bool)
  | function (name : Option String) (parameters : List String) (body : List Stmt)

/-- What becomes of a sight in the body of a function when the whole function is looked at. -/
def Sight.enter (bound : Bool) : Sight → Sight
  | .this within => .this (bound :: within)
  | .function name parameters body => .function name parameters body

/-- Whether a call is `(function ...).bind(this)`. -/
def bindsThis : Expr → List Expr → Bool
  | .member (.function ..) name, [.this] => name == "bind"
  | _, _ => false

mutual

/-- The sights of an expression.  If it is a function, or a member of one, it may be `bound`. -/
def Expr.sights (bound : Bool) : Expr → List Sight
  | .null | .boolean _ | .number _ | .string _ | .ident _ => []
  | .this => [.this []]
  | .member target _ => target.sights bound
  | .index target key => target.sights false ++ key.sights false
  | .call target arguments =>
    target.sights (bindsThis target arguments) ++ exprsSights arguments
  | .new constructor arguments => constructor.sights false ++ exprsSights arguments
  | .object properties => propertiesSights properties
  | .array items | .comma items => exprsSights items
  | .binary _ left right => left.sights false ++ right.sights false
  | .unary _ operand | .update _ operand => operand.sights false
  | .assign _ target value => target.sights false ++ value.sights false
  | .conditional condition whenTrue whenFalse =>
    condition.sights false ++ (whenTrue.sights false ++ whenFalse.sights false)
  | .function name parameters body =>
    .function name parameters body :: (stmtsSights body).map (.enter bound)

/-- The sights of several expressions. -/
def exprsSights : List Expr → List Sight
  | [] => []
  | e :: rest => e.sights false ++ exprsSights rest

/-- The sights of the values of an object literal. -/
def propertiesSights : List Property → List Sight
  | [] => []
  | .mk _ value :: rest => value.sights false ++ propertiesSights rest

/-- The sights of an expression that may be missing. -/
def optionalSights : Option Expr → List Sight
  | none => []
  | some e => e.sights false

/-- The sights of the initial values of bindings. -/
def bindingsSights : List Binding → List Sight
  | [] => []
  | .mk _ initializer :: rest => optionalSights initializer ++ bindingsSights rest

/-- The sights of a statement. -/
def Stmt.sights : Stmt → List Sight
  | .comment _ | .break | .continue | .empty => []
  | .declare bindings => bindingsSights bindings
  | .expr value | .throw value => value.sights false
  | .block body => stmtsSights body
  | .return value => optionalSights value
  | .branch condition thenBranch elseBranch =>
    condition.sights false ++ (thenBranch.sights ++ elseSights elseBranch)
  | .whileLoop condition body => condition.sights false ++ body.sights
  | .doWhile body condition => body.sights ++ condition.sights false

/-- The sights of an else branch. -/
def elseSights : Option Stmt → List Sight
  | none => []
  | some s => s.sights

/-- The sights of several statements. -/
def stmtsSights : List Stmt → List Sight
  | [] => []
  | s :: rest => s.sights ++ stmtsSights rest

end

variable {P : Sight → Prop} {x : Sight}

/-- The sights of expressions are those of each of them. -/
lemma mem_exprsSights {es : List Expr} :
    x ∈ exprsSights es ↔ ∃ e ∈ es, x ∈ e.sights false := by
  induction es with
  | nil => simp [exprsSights]
  | cons e rest ih => simp [exprsSights, ih]

/-- The sights of properties are those of their values. -/
lemma mem_propertiesSights {properties : List Property} :
    x ∈ propertiesSights properties ↔ ∃ p ∈ properties, x ∈ p.value.sights false := by
  induction properties with
  | nil => simp [propertiesSights]
  | cons p rest ih =>
    obtain ⟨name, value⟩ := p
    simp [propertiesSights, Property.value, ih]

/-- The sights of bindings are those of their initial values. -/
lemma mem_bindingsSights {bindings : List Binding} :
    x ∈ bindingsSights bindings ↔
      ∃ b ∈ bindings, ∃ e ∈ b.initializer, x ∈ e.sights false := by
  induction bindings with
  | nil => simp [bindingsSights]
  | cons b rest ih =>
    obtain ⟨name, initializer⟩ := b
    cases initializer <;> simp [bindingsSights, optionalSights, Binding.initializer, ih]

/-- The sights of statements are those of each of them. -/
lemma mem_stmtsSights {statements : List Stmt} :
    x ∈ stmtsSights statements ↔ ∃ s ∈ statements, x ∈ s.sights := by
  induction statements with
  | nil => simp [stmtsSights]
  | cons s rest ih => simp [stmtsSights, ih]

/-! ## A property of all sights -/

/-- Every sight of the expression satisfies `P`. -/
def Expr.Only (P : Sight → Prop) (e : Expr) : Prop :=
  ∀ x ∈ e.sights false, P x

/-- Every sight of the statement satisfies `P`. -/
def Stmt.Only (P : Sight → Prop) (s : Stmt) : Prop :=
  ∀ x ∈ s.sights, P x

/-- Binding a function does not break the property. -/
def SurvivesBinding (P : Sight → Prop) : Prop :=
  ∀ x : Sight, P (x.enter false) → P (x.enter true)

/-- Where there are no sights, all of them satisfy `P`. -/
lemma only_of_sights_eq_nil {e : Expr} (h : e.sights false = []) : e.Only P := by
  intro x hx
  rw [h] at hx
  cases hx

/-- `P` holds of all sights of expressions if it does for each of them. -/
lemma only_exprs {es : List Expr} :
    (∀ x ∈ exprsSights es, P x) ↔ ∀ e ∈ es, e.Only P := by
  constructor
  · exact fun h e he x hx => h x (mem_exprsSights.mpr ⟨e, he, hx⟩)
  · intro h x hx
    obtain ⟨e, he, hxe⟩ := mem_exprsSights.mp hx
    exact h e he x hxe

/-- `P` holds of all sights of statements if it does for each of them. -/
lemma only_stmts {statements : List Stmt} :
    (∀ x ∈ stmtsSights statements, P x) ↔ ∀ s ∈ statements, s.Only P := by
  constructor
  · exact fun h s hs x hx => h x (mem_stmtsSights.mpr ⟨s, hs, hx⟩)
  · intro h x hx
    obtain ⟨s, hs, hxs⟩ := mem_stmtsSights.mp hx
    exact h s hs x hxs

namespace Expr

/-- A name is no sight. -/
lemma only_ident (name : String) : (Expr.ident name).Only P :=
  only_of_sights_eq_nil rfl

/-- The sights of an object literal are those of its values. -/
lemma only_object {properties : List Property} :
    (Expr.object properties).Only P ↔ ∀ p ∈ properties, p.value.Only P := by
  constructor
  · exact fun h p hp x hx => h x (mem_propertiesSights.mpr ⟨p, hp, hx⟩)
  · intro h x hx
    obtain ⟨p, hp, hxp⟩ := mem_propertiesSights.mp hx
    exact h p hp x hxp

/-- A function is a sight, and what is seen in its body is seen inside it. -/
lemma only_function {name : Option String} {parameters : List String} {body : List Stmt} :
    (Expr.function name parameters body).Only P ↔
      P (.function name parameters body) ∧ ∀ x ∈ stmtsSights body, P (x.enter false) :=
  List.forall_mem_cons.trans (and_congr_right' List.forall_mem_map)

/-- A function that is bound. -/
lemma only_bound {name : Option String} {parameters : List String} {body : List Stmt} :
    (Expr.call (.member (.function name parameters body) "bind") [.this]).Only P ↔
      P (.function name parameters body) ∧ (∀ x ∈ stmtsSights body, P (x.enter true)) ∧
        P (.this []) := by
  have hsights : (Expr.call (.member (.function name parameters body) "bind") [.this]).sights false =
      .function name parameters body :: ((stmtsSights body).map (.enter true) ++ [.this []]) := rfl
  rw [Only, hsights, List.forall_mem_cons, List.forall_mem_append, List.forall_mem_map,
    List.forall_mem_singleton]

/-- What holds of the target of a call holds of it if the call binds it. -/
lemma Only.bound (hP : SurvivesBinding P) {target : Expr} {arguments : List Expr}
    (h : target.Only P) : ∀ x ∈ target.sights (bindsThis target arguments), P x := by
  by_cases hbound : bindsThis target arguments = true
  · unfold bindsThis at hbound
    split at hbound
    · next name parameters body member =>
      obtain ⟨hfunction, hbody⟩ := only_function.mp h
      rw [bindsThis, hbound]
      refine List.forall_mem_cons.mpr ⟨hfunction, List.forall_mem_map.mpr fun x hx => ?_⟩
      exact hP x (hbody x hx)
    · cases hbound
  · rw [Bool.not_eq_true] at hbound
    rw [hbound]
    exact h

/-- A call adds nothing to its target and its arguments but a binding. -/
lemma only_call (hP : SurvivesBinding P) {target : Expr} {arguments : List Expr}
    (htarget : target.Only P) (harguments : ∀ a ∈ arguments, a.Only P) :
    (Expr.call target arguments).Only P :=
  List.forall_mem_append.mpr ⟨htarget.bound hP, only_exprs.mpr harguments⟩

end Expr

namespace Stmt

/-- The sights of a declaration are those of the initial values. -/
lemma only_declare {bindings : List Binding} :
    (Stmt.declare bindings).Only P ↔ ∀ b ∈ bindings, ∀ e ∈ b.initializer, e.Only P := by
  constructor
  · exact fun h b hb e he x hx => h x (mem_bindingsSights.mpr ⟨b, hb, e, he, hx⟩)
  · intro h x hx
    obtain ⟨b, hb, e, he, hxe⟩ := mem_bindingsSights.mp hx
    exact h b hb e he x hxe

/-- The sights of a return are those of its value. -/
lemma only_return {value : Option Expr} :
    (Stmt.return value).Only P ↔ ∀ e ∈ value, e.Only P := by
  cases value with
  | none => exact ⟨fun _ _ he => (by cases he), fun _ _ hx => (by cases hx)⟩
  | some e => exact ⟨fun h _ he => Option.some.inj he ▸ h, fun h => h e rfl⟩

/-- The sights of a branch are those of its condition and its statements. -/
lemma only_branch {condition : Expr} {thenBranch : Stmt} {elseBranch : Option Stmt} :
    (Stmt.branch condition thenBranch elseBranch).Only P ↔
      condition.Only P ∧ thenBranch.Only P ∧ ∀ s ∈ elseBranch, s.Only P := by
  refine List.forall_mem_append.trans (and_congr_right' ?_)
  refine List.forall_mem_append.trans (and_congr_right' ?_)
  cases elseBranch with
  | none => exact ⟨fun _ _ hs => (by cases hs), fun _ _ hx => (by cases hx)⟩
  | some s => exact ⟨fun h _ hs => Option.some.inj hs ▸ h, fun h => h s rfl⟩

end Stmt

/-- Statements without expressions have no sights. -/
lemma only_of_stmtSights_eq_nil {s : Stmt} (h : s.sights = []) : s.Only P := by
  intro x hx
  rw [h] at hx
  cases hx

end ScriptCompiler.Script
