import Mathlib.Logic.Relation
import ScriptCompiler.Proofs.Hoisting.Fragment

/-!
# The parts of a source tree

An expression is strict if evaluating it evaluates all of its operands; `Expr.inTurn` lists them in
the order of their evaluation.  A `Node` is an expression or a statement, and `Node.parts` are the
nodes directly inside it, also through the body of a function.

`tree_induction` is the induction that goes with it: a strict expression follows from its operands,
a statement from the expressions and statements directly inside it.
-/

namespace ScriptCompiler.Source

variable {a : Argument}

/-! ## Direct parts -/

/-- The mode of an argument. -/
def Argument.mode : Argument → ArgumentMode
  | .mk mode _ => mode

/-- The expression of an argument. -/
def Argument.value : Argument → Expr
  | .mk _ value => value

/-- The initial value that a declarator gives. -/
def Declarator.initializer : Declarator → Option Expr
  | .mk _ _ initializer _ => initializer

/-- The variable that a declarator declares. -/
def Declarator.id : Declarator → VariableId
  | .mk id _ _ _ => id

/-- Where a declarator stands. -/
def Declarator.span : Declarator → Span
  | .mk _ _ _ span => span

/-- Whether evaluating the expression evaluates all of its operands. -/
def Expr.isStrict : Expr → Bool
  | .binary _ op _ _ => !op.isShortCircuit
  | .conditional .. | .lambda .. => false
  | _ => true

/-- The operands of a strict expression in the order of their evaluation.  The target of an
assignment takes part with its sub-expressions. -/
def Expr.inTurn : Expr → List Argument
  | .field _ target _ | .property _ target _ => (target.map (.mk .value)).toList
  | .indexer _ target _ arguments => .mk .value target :: arguments
  | .element _ array index => [.mk .value array, .mk .value index]
  | .call _ target _ arguments => (target.map (.mk .value)).toList ++ arguments
  | .delegateCall _ target arguments => .mk .value target :: arguments
  | .create _ _ arguments => arguments
  | .createArray _ elements => elements.map (.mk .value)
  | .binary _ _ left right => [.mk .value left, .mk .value right]
  | .unary _ _ operand => [.mk .value operand]
  | .assign _ _ target value => target.operands ++ [.mk .value value]
  | .increment _ _ target => target.operands
  | .constant .. | .localVar .. | .this _ | .conditional .. | .lambda .. => []

/-- The expressions directly inside a statement. -/
def Stmt.expressions : Stmt → List Expr
  | .declare _ declarators => declarators.filterMap Declarator.initializer
  | .expr _ value => [value]
  | .return _ value | .throw _ value => value.toList
  | .branch _ condition _ _ | .whileLoop _ condition _ | .doWhile _ _ condition => [condition]
  | _ => []

/-- The initial values of declarators are that of the first one and those of the others. -/
lemma forall_initializers_cons {P : Expr → Prop} {d : Declarator} {rest : List Declarator} :
    (∀ e ∈ (d :: rest).filterMap Declarator.initializer, P e) ↔
      (∀ e ∈ d.initializer, P e) ∧ ∀ e ∈ rest.filterMap Declarator.initializer, P e := by
  cases hd : d.initializer <;> simp [hd]

/-- The statements directly inside a statement. -/
def Stmt.statements : Stmt → List Stmt
  | .block _ body | .checked _ body | .unchecked _ body => body
  | .branch _ _ thenBranch elseBranch => thenBranch :: elseBranch.toList
  | .whileLoop _ _ body | .doWhile _ body _ => [body]
  | _ => []

/-! ## Nodes -/

/-- An expression or a statement. -/
inductive Node where
  | expr (e : Expr)
  | stmt (s : Stmt)

/-- The nodes directly inside a node. -/
def Node.parts : Node → List Node
  | .expr (.conditional _ condition whenTrue whenFalse) =>
    [.expr condition, .expr whenTrue, .expr whenFalse]
  | .expr (.lambda _ _ _ (.expr value)) => [.expr value]
  | .expr (.lambda _ _ _ (.block body)) => body.map .stmt
  | .expr e => e.inTurn.map fun a => .expr a.value
  | .stmt s => s.expressions.map .expr ++ s.statements.map .stmt

/-- The second node stands somewhere inside the first one, or is the first one. -/
abbrev Contains : Node → Node → Prop :=
  Relation.ReflTransGen fun whole part => part ∈ whole.parts

/-- What holds of everything inside a node holds of everything inside its parts. -/
lemma forall_contains_of_mem_parts {p : Node → Prop} {whole part : Node}
    (hpart : part ∈ whole.parts) (h : ∀ n, Contains whole n → p n) :
    ∀ n, Contains part n → p n :=
  fun n hn => h n (.head hpart hn)

/-- Operands are parts. -/
lemma mem_parts_of_mem_inTurn {e : Expr} (ha : a ∈ e.inTurn) :
    .expr a.value ∈ (Node.expr e).parts := by
  cases e with
  | conditional => cases ha
  | lambda => cases ha
  | _ => exact List.mem_map.mpr ⟨a, ha, rfl⟩

/-- The parts of a strict expression are its operands. -/
lemma parts_strict {e : Expr} (h : e.isStrict = true) :
    (Node.expr e).parts = e.inTurn.map fun a => .expr a.value := by
  cases e with
  | conditional => cases h
  | lambda => cases h
  | _ => rfl

/-! ## Induction over the tree -/

/-- An argument is larger than its expression. -/
lemma sizeOf_value_lt (a : Argument) : sizeOf a.value < sizeOf a := by
  cases a
  simp only [Argument.value, Argument.mk.sizeOf_spec]
  omega

/-- An optional target is larger than the expression that it holds. -/
lemma sizeOf_lt_of_mem_target {target : Option Expr}
    (h : a ∈ (target.map (Argument.mk .value)).toList) : sizeOf a.value < sizeOf target := by
  cases target with
  | none => cases h
  | some e =>
    simp only [Option.map_some, Option.toList_some, List.mem_singleton] at h
    subst h
    simp only [Argument.value, Option.some.sizeOf_spec]
    omega

/-- An argument of a list is smaller than the list. -/
lemma sizeOf_lt_of_mem_arguments {arguments : List Argument} (h : a ∈ arguments) :
    sizeOf a.value < sizeOf arguments :=
  Nat.lt_trans (sizeOf_value_lt a) (List.sizeOf_lt_of_mem h)

/-- The sub-expressions of a target are smaller than the target. -/
lemma sizeOf_lt_of_mem_operands {target : Expr} (h : a ∈ target.operands) :
    sizeOf a.value < sizeOf target := by
  cases target with
  | field | property =>
    have hlt := sizeOf_lt_of_mem_target h
    simp only [Expr.field.sizeOf_spec, Expr.property.sizeOf_spec]
    omega
  | indexer =>
    rw [Expr.indexer.sizeOf_spec]
    rcases List.mem_cons.mp h with rfl | h
    · simp +arith [Argument.value]
    · have hlt := sizeOf_lt_of_mem_arguments h
      omega
  | element =>
    simp only [Expr.operands, List.mem_cons, List.not_mem_nil, or_false] at h
    rcases h with rfl | rfl <;> simp +arith [Argument.value]
  | _ => cases h

/-- Operands are smaller than their expression. -/
lemma sizeOf_lt_of_mem_inTurn {e : Expr} (h : a ∈ e.inTurn) : sizeOf a.value < sizeOf e := by
  have hoperands : a ∈ e.operands → sizeOf a.value < sizeOf e := sizeOf_lt_of_mem_operands
  cases e with
  | field | property | indexer | element => exact hoperands h
  | call =>
    rw [Expr.call.sizeOf_spec]
    rcases List.mem_append.mp h with h | h
    · have hlt := sizeOf_lt_of_mem_target h
      omega
    · have hlt := sizeOf_lt_of_mem_arguments h
      omega
  | delegateCall =>
    rw [Expr.delegateCall.sizeOf_spec]
    rcases List.mem_cons.mp h with rfl | h
    · simp +arith [Argument.value]
    · have hlt := sizeOf_lt_of_mem_arguments h
      omega
  | create i id arguments =>
    have hlt : sizeOf a.value < sizeOf arguments := sizeOf_lt_of_mem_arguments h
    rw [Expr.create.sizeOf_spec]
    omega
  | createArray =>
    obtain ⟨e, he, rfl⟩ := List.mem_map.mp h
    have hlt := List.sizeOf_lt_of_mem he
    rw [Argument.value, Expr.createArray.sizeOf_spec]
    omega
  | binary =>
    simp only [Expr.inTurn, List.mem_cons, List.not_mem_nil, or_false] at h
    rcases h with rfl | rfl <;> simp +arith [Argument.value]
  | unary =>
    obtain rfl := List.mem_singleton.mp h
    simp +arith [Argument.value]
  | assign =>
    rw [Expr.assign.sizeOf_spec]
    rcases List.mem_append.mp h with h | h
    · have hlt := sizeOf_lt_of_mem_operands h
      omega
    · obtain rfl := List.mem_singleton.mp h
      simp +arith [Argument.value]
  | increment =>
    have hlt := sizeOf_lt_of_mem_operands h
    rw [Expr.increment.sizeOf_spec]
    omega
  | _ => cases h

/-- The expressions inside a statement are smaller than it. -/
lemma sizeOf_lt_of_mem_expressions {s : Stmt} {e : Expr} (h : e ∈ s.expressions) :
    sizeOf e < sizeOf s := by
  cases s with
  | declare span declarators =>
    obtain ⟨⟨id, name, initializer, at_⟩, hd, he⟩ := List.mem_filterMap.mp h
    simp only [Declarator.initializer] at he
    subst he
    have hlt := List.sizeOf_lt_of_mem hd
    simp only [Declarator.mk.sizeOf_spec, Option.some.sizeOf_spec] at hlt
    simp only [Stmt.declare.sizeOf_spec]
    omega
  | «return» | throw =>
    obtain rfl := Option.mem_toList.mp h
    simp +arith
  | expr | branch | whileLoop | doWhile =>
    obtain rfl := List.mem_singleton.mp h
    simp +arith
  | _ => cases h

/-- The statements inside a statement are smaller than it. -/
lemma sizeOf_lt_of_mem_statements {s t : Stmt} (h : t ∈ s.statements) : sizeOf t < sizeOf s := by
  cases s with
  | block span body | checked span body | unchecked span body =>
    have hlt : sizeOf t < sizeOf body := List.sizeOf_lt_of_mem h
    simp only [Stmt.block.sizeOf_spec, Stmt.checked.sizeOf_spec, Stmt.unchecked.sizeOf_spec]
    omega
  | branch =>
    simp only [Stmt.statements, List.mem_cons, Option.mem_toList] at h
    rcases h with rfl | rfl <;> simp +arith
  | whileLoop | doWhile =>
    obtain rfl := List.mem_singleton.mp h
    simp +arith
  | _ => cases h

/-- Parts are smaller than their node. -/
lemma sizeOf_lt_of_mem_parts {n part : Node} (h : part ∈ n.parts) : sizeOf part < sizeOf n := by
  cases n with
  | expr e =>
    cases e with
    | conditional i condition whenTrue whenFalse =>
      simp only [Node.parts, List.mem_cons, List.not_mem_nil, or_false] at h
      rcases h with rfl | rfl | rfl <;>
        simp only [Node.expr.sizeOf_spec, Expr.conditional.sizeOf_spec] <;> omega
    | lambda i id parameters body =>
      cases body with
      | expr value =>
        obtain rfl := List.mem_singleton.mp h
        simp only [Node.expr.sizeOf_spec, Expr.lambda.sizeOf_spec, LambdaBody.expr.sizeOf_spec]
        omega
      | block body =>
        obtain ⟨s, hs, rfl⟩ := List.mem_map.mp h
        have hlt := List.sizeOf_lt_of_mem hs
        simp only [Node.expr.sizeOf_spec, Node.stmt.sizeOf_spec, Expr.lambda.sizeOf_spec,
          LambdaBody.block.sizeOf_spec]
        omega
    | _ =>
      obtain ⟨a, ha, rfl⟩ := List.mem_map.mp h
      have hlt := sizeOf_lt_of_mem_inTurn ha
      rw [Node.expr.sizeOf_spec, Node.expr.sizeOf_spec]
      exact Nat.add_lt_add_left hlt 1
  | stmt s =>
    rcases List.mem_append.mp h with h | h
    · obtain ⟨e, he, rfl⟩ := List.mem_map.mp h
      exact Nat.add_lt_add_left (sizeOf_lt_of_mem_expressions he) 1
    · obtain ⟨t, ht, rfl⟩ := List.mem_map.mp h
      exact Nat.add_lt_add_left (sizeOf_lt_of_mem_statements ht) 1

/-- The node and everything inside it. -/
def Node.nodes (n : Node) : List Node :=
  n :: n.parts.attach.flatMap fun part => part.1.nodes
termination_by sizeOf n
decreasing_by exact sizeOf_lt_of_mem_parts part.2

/-- The node comes first, and then what its parts list. -/
lemma Node.nodes_eq (n : Node) : n.nodes = n :: n.parts.flatMap nodes := by
  rw [nodes]
  simp [List.flatMap_subtype]

/-- What stands inside a node is listed. -/
lemma Node.mem_nodes_of_contains {whole n : Node} (h : Contains whole n) : n ∈ whole.nodes := by
  induction h using Relation.ReflTransGen.head_induction_on with
  | refl =>
    rw [nodes_eq]
    exact List.mem_cons_self
  | head hpart _ ih =>
    rw [nodes_eq]
    exact List.mem_cons_of_mem _ (List.mem_flatMap.mpr ⟨_, hpart, ih⟩)

/-- What follows from direct parts holds of every expression and of every statement. -/
theorem tree_induction {P : Expr → Prop} {Q : Stmt → Prop}
    (strict : ∀ e, e.isStrict = true → (∀ a ∈ e.inTurn, P a.value) → P e)
    (shortCircuit : ∀ i op left right, op.isShortCircuit = true → P left → P right →
      P (.binary i op left right))
    (conditional : ∀ i condition whenTrue whenFalse, P condition → P whenTrue → P whenFalse →
      P (.conditional i condition whenTrue whenFalse))
    (function : ∀ i id parameters value, P value → P (.lambda i id parameters (.expr value)))
    (procedure : ∀ i id parameters body, (∀ s ∈ body, Q s) →
      P (.lambda i id parameters (.block body)))
    (statement : ∀ s, (∀ e ∈ s.expressions, P e) → (∀ t ∈ s.statements, Q t) → Q s) :
    (∀ e, P e) ∧ ∀ s, Q s := by
  have hbelow : ∀ n, (∀ e, sizeOf e < n → P e) ∧ ∀ s, sizeOf s < n → Q s := by
    intro n
    induction n with
    | zero => exact ⟨fun e h => absurd h (Nat.not_lt_zero _), fun s h => absurd h (Nat.not_lt_zero _)⟩
    | succ n ih =>
      refine ⟨fun e he => ?_, fun s hs => statement s ?_ ?_⟩
      · by_cases hstrict : e.isStrict = true
        · exact strict e hstrict fun a ha => ih.1 _ (by have := sizeOf_lt_of_mem_inTurn ha; omega)
        · cases e with
          | binary i op left right =>
            simp only [Expr.binary.sizeOf_spec] at he
            exact shortCircuit i op left right (by simpa [Expr.isStrict] using hstrict)
              (ih.1 _ (by omega)) (ih.1 _ (by omega))
          | conditional i condition whenTrue whenFalse =>
            simp only [Expr.conditional.sizeOf_spec] at he
            exact conditional i condition whenTrue whenFalse (ih.1 _ (by omega))
              (ih.1 _ (by omega)) (ih.1 _ (by omega))
          | lambda i id parameters body =>
            simp only [Expr.lambda.sizeOf_spec] at he
            cases body with
            | expr value =>
              simp only [LambdaBody.expr.sizeOf_spec] at he
              exact function i id parameters value (ih.1 _ (by omega))
            | block body =>
              simp only [LambdaBody.block.sizeOf_spec] at he
              exact procedure i id parameters body fun s hs =>
                ih.2 _ (by have := List.sizeOf_lt_of_mem hs; omega)
          | _ => exact absurd rfl hstrict
      · exact fun e h => ih.1 _ (by have := sizeOf_lt_of_mem_expressions h; omega)
      · exact fun t h => ih.2 _ (by have := sizeOf_lt_of_mem_statements h; omega)
  exact ⟨fun e => (hbelow _).1 e (Nat.lt_succ_self _), fun s => (hbelow _).2 s (Nat.lt_succ_self _)⟩

/-- Induction over a tree in which `p` holds of every node. -/
lemma contained_induction {p : Node → Prop} {P : Expr → Prop} {Q : Stmt → Prop}
    (strict : ∀ e, e.isStrict = true → p (.expr e) →
      (∀ a ∈ e.inTurn, p (.expr a.value) ∧ P a.value) → P e)
    (shortCircuit : ∀ i op left right, op.isShortCircuit = true → P left → P right →
      P (.binary i op left right))
    (conditional : ∀ i condition whenTrue whenFalse, P condition → P whenTrue → P whenFalse →
      P (.conditional i condition whenTrue whenFalse))
    (function : ∀ i id parameters value, p (.expr (.lambda i id parameters (.expr value))) →
      P value → P (.lambda i id parameters (.expr value)))
    (procedure : ∀ i id parameters body, p (.expr (.lambda i id parameters (.block body))) →
      (∀ s ∈ body, Q s) → P (.lambda i id parameters (.block body)))
    (statement : ∀ s, p (.stmt s) → (∀ e ∈ s.expressions, P e) → (∀ t ∈ s.statements, Q t) → Q s) :
    (∀ e, (∀ n, Contains (.expr e) n → p n) → P e) ∧
      ∀ s, (∀ n, Contains (.stmt s) n → p n) → Q s := by
  refine tree_induction ?_ ?_ ?_ ?_ ?_ ?_
  · intro e hstrict hoperands h
    have hinside : ∀ a ∈ e.inTurn, ∀ n, Contains (.expr a.value) n → p n := fun a ha =>
      forall_contains_of_mem_parts (mem_parts_of_mem_inTurn ha) h
    exact strict e hstrict (h _ .refl) fun a ha =>
      ⟨hinside a ha _ .refl, hoperands a ha (hinside a ha)⟩
  · intro i op left right hop hleft hright h
    have hinside : ∀ a ∈ (Expr.binary i op left right).inTurn, ∀ n, Contains (.expr a.value) n → p n :=
      fun a ha => forall_contains_of_mem_parts (mem_parts_of_mem_inTurn ha) h
    exact shortCircuit i op left right hop (hleft (hinside _ List.mem_cons_self))
      (hright (hinside _ (List.mem_cons_of_mem _ List.mem_cons_self)))
  · intro i condition whenTrue whenFalse hcondition htrue hfalse h
    have hinside : ∀ e ∈ [condition, whenTrue, whenFalse], ∀ n, Contains (.expr e) n → p n := by
      intro e he
      have hpart : Node.expr e ∈ (Node.expr (.conditional i condition whenTrue whenFalse)).parts :=
        List.mem_map_of_mem (f := Node.expr) he
      exact forall_contains_of_mem_parts hpart h
    exact conditional i condition whenTrue whenFalse (hcondition (hinside _ (by simp)))
      (htrue (hinside _ (by simp))) (hfalse (hinside _ (by simp)))
  · intro i id parameters value hvalue h
    have hpart : Node.expr value ∈ (Node.expr (.lambda i id parameters (.expr value))).parts :=
      List.mem_cons_self
    exact function i id parameters value (h _ .refl) (hvalue (forall_contains_of_mem_parts hpart h))
  · intro i id parameters body hbody h
    refine procedure i id parameters body (h _ .refl) fun s hs => hbody s hs ?_
    have hpart : Node.stmt s ∈ (Node.expr (.lambda i id parameters (.block body))).parts :=
      List.mem_map.mpr ⟨s, hs, rfl⟩
    exact forall_contains_of_mem_parts hpart h
  · intro s hexpr hstmt h
    refine statement s (h _ .refl) (fun e he => hexpr e he ?_) fun t ht => hstmt t ht ?_
    · exact forall_contains_of_mem_parts (List.mem_append_left _ (List.mem_map.mpr ⟨e, he, rfl⟩)) h
    · exact forall_contains_of_mem_parts (List.mem_append_right _ (List.mem_map.mpr ⟨t, ht, rfl⟩)) h

end ScriptCompiler.Source
