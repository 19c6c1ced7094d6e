import ScriptCompiler.Proofs.Traversal.Operands

/-!
# Well-formed bodies

A run of lowering visits the nodes of a body one after the other.  `visits` lists the nodes directly
inside a node together with the states in which their turns come, and `Reached` follows the run
down from node to node.

A body is `WellFormed` if everything inside it is `Proper`, which asks for descriptors, forms and
assignable targets and does not depend on the run, and if the condition of every loop that tests
behind its body can be written as one expression.  What such a condition needs depends on the
temporaries given before it, so that this is asked of the condition in its turn.
-/

namespace ScriptCompiler.Lowering

open Source (Node Argument Contains)

/-! ## The turns of a run -/

/-- What lowering is asked for: the value of an expression or the statements of a statement. -/
inductive Visit where
  | expr (e : Source.Expr) (important : Bool)
  | stmt (t : Source.Stmt) (spliced : Bool)

/-- The node that is visited. -/
def Visit.node : Visit → Node
  | .expr e _ => .expr e
  | .stmt t _ => .stmt t

variable (c : Context)

/-- The state behind a visit. -/
def Visit.after : Visit → State → State
  | .expr e important, s => (lowerExpr c e important s).2
  | .stmt t spliced, s => (lowerStmt c t spliced s).2

/-- Visits that follow each other at once. -/
def inSequence : List Visit → State → List (Visit × State)
  | [], _ => []
  | v :: rest, s => (v, s) :: inSequence rest (v.after c s)

/-- The visits of operands.  Operands passed by reference are not lowered to values. -/
def argumentVisits : List Argument → Operands → State → List (Visit × State)
  | [], _, _ => []
  | a :: rest, operands, s =>
    let added := (lowerOperand c a >>= operands.add c) s
    (if a.mode.isReference then [] else [(.expr a.value true, s)]) ++
      argumentVisits rest added.1 added.2

/-- The visits inside an expression. -/
def exprVisits (e : Source.Expr) (s : State) : List (Visit × State) :=
  match e with
  | .conditional _ condition whenTrue whenFalse =>
    inSequence c [.expr condition true, .expr whenTrue true, .expr whenFalse true] s
  | .lambda _ id parameters (.expr value) =>
    [(.expr value (!value.type.isVoid), (lambdaHead c id parameters s).2)]
  | .lambda _ id parameters (.block body) =>
    inSequence c (body.map (.stmt · false)) (lambdaHead c id parameters s).2
  | .binary _ op left right =>
    if op.isShortCircuit then inSequence c [.expr left true, .expr right true] s
    else argumentVisits c [.mk .value left, .mk .value right] {} s
  | e => argumentVisits c e.inTurn {} (announce e s).2

/-- The visits of initial values.  A variable without description is left out together with its
initial value. -/
def declaratorVisits : List Source.Declarator → State → List (Visit × State)
  | [], _ => []
  | d :: rest, s =>
    (if (c.scope.get? d.id).isSome then
      inSequence c (d.initializer.map (.expr · true)).toList (setLocation (c.location d.span) s).2
     else []) ++ declaratorVisits rest (lowerDeclarator c d s).2

/-- The visits inside a statement. -/
def stmtVisits (t : Source.Stmt) (spliced : Bool) (s : State) : List (Visit × State) :=
  let here := (setLocation (c.location t.span) s).2
  match t with
  | .declare _ declarators => declaratorVisits c declarators here
  | .expr _ value => [(.expr value false, here)]
  | .block _ body => inSequence c (body.map (.stmt · false)) (if spliced then s else here)
  | .checked _ body | .unchecked _ body => inSequence c (body.map (.stmt · false)) here
  | .return _ value | .throw _ value => inSequence c (value.map (.expr · true)).toList here
  | .branch _ condition thenBranch elseBranch =>
    inSequence c (.expr condition true :: (thenBranch :: elseBranch.toList).map (.stmt · true)) here
  | .whileLoop _ condition body => inSequence c [.expr condition true, .stmt body true] here
  | .doWhile span body condition =>
    [(.stmt body true, here), (.expr condition true, (doWhileBody c span body condition s).2)]
  | _ => []

/-- The visits directly inside a visit. -/
def visits : Visit × State → List (Visit × State)
  | (.expr e _, s) => exprVisits c e s
  | (.stmt t spliced, s) => stmtVisits c t spliced s

/-- A run that makes the first visit makes the second one in the course of it. -/
abbrev Reached : Visit × State → Visit × State → Prop :=
  Relation.ReflTransGen fun v w => w ∈ visits c v

/-! ## Well-formed bodies -/

namespace Context

/-- The variable has a descriptor. -/
def Describes (id : VariableId) : Prop :=
  (c.scope.get? id).isSome = true

/-- The member is realised in a way that a property or indexer can be read and written. -/
def IsProperty (id : MemberId) : Prop :=
  c.IsAccessor id ∨ c.IsField id ∨ c.naming.form? c.program id = some .nativeIndexer

end Context

/-- The variable or member can be read and written. -/
def ProperAccess : Source.Expr → Prop
  | .localVar _ id => c.Describes id
  | .field _ _ id => c.IsField id
  | .property _ _ id | .indexer _ _ id _ => c.IsProperty id
  | _ => True

/-- The target of an assignment or increment can be assigned. -/
def Assignable : Source.Expr → Prop
  | .assign _ _ target _ | .increment _ _ target => target.isTarget = true
  | _ => True

/-- What the expression itself asks for is there. -/
def ProperExpr : Source.Expr → Prop
  | .call _ _ id _ => c.IsMethod id
  | .create _ id _ => c.IsConstructor id
  | .assign _ _ target _ | .increment _ _ target =>
    target.isTarget = true ∧ ProperAccess c target
  | .lambda _ id parameters _ =>
    (c.lambdas.get? id).isSome = true ∧ ∀ p ∈ parameters, c.Describes p
  | e => ProperAccess c e

/-- Arguments passed by reference are variables in containers. -/
def ProperArguments (arguments : List Argument) : Prop :=
  ∀ a ∈ arguments, a.mode.isReference = true → c.IsContained a.value

/-- What the statement itself asks for is there. -/
def ProperStmt : Source.Stmt → Prop
  | .declare _ declarators => ∀ d ∈ declarators, c.Describes d.id
  | .throw _ none | .unsupported .. => False
  | _ => True

/-- What the node itself asks for is there. -/
def Proper : Node → Prop
  | .expr e => ProperExpr c e ∧ ProperArguments c e.inTurn
  | .stmt t => ProperStmt c t

/-- The condition of a loop that tests behind its body needs only statements that can be parts of a
comma expression. -/
def ConditionFits : Visit × State → Prop
  | (.stmt (.doWhile span body condition) _, s) =>
    ∀ h ∈ (doWhileCondition c span body condition s).before, isCommaPart h = true
  | _ => True

/-- A body whose lowering starts in the given state is well formed. -/
structure WellFormed (body : Source.Stmt) (s : State) : Prop where
  /-- Everything inside it is proper. -/
  proper : ∀ n, Contains (.stmt body) n → Proper c n
  /-- Every loop that tests behind its body has a condition that is one expression. -/
  conditions : ∀ v, Reached c (.stmt body true, s) v → ConditionFits c v

/-! ## Visits and parts -/

variable {c}

/-- The visits inside a strict expression are those of its operands. -/
lemma exprVisits_strict {e : Source.Expr} (h : e.isStrict = true) (s : State) :
    exprVisits c e s = argumentVisits c e.inTurn {} (announce e s).2 := by
  cases e with
  | binary i op left right =>
    have hop : op.isShortCircuit = false := by simpa [Source.Expr.isStrict] using h
    simp only [exprVisits, hop, if_false, Bool.false_eq_true]
    rfl
  | conditional => cases h
  | lambda => cases h
  | _ => rfl

/-- The visits inside a lazy operator are those of its operands. -/
lemma exprVisits_lazy (i : Source.Info) {op : Source.BinaryOp} (h : op.isShortCircuit = true)
    (left right : Source.Expr) (s : State) :
    exprVisits c (.binary i op left right) s =
      inSequence c [.expr left true, .expr right true] s := by
  simp only [exprVisits, h, if_true]

@[simp] lemma map_fst_inSequence (vs : List Visit) (s : State) :
    (inSequence c vs s).map Prod.fst = vs := by
  induction vs generalizing s with
  | nil => rfl
  | cons v rest ih => simp only [inSequence, List.map_cons, ih]

@[simp] lemma map_fst_argumentVisits (arguments : List Argument) (operands : Operands)
    (s : State) :
    (argumentVisits c arguments operands s).map Prod.fst =
      (arguments.filter (!·.mode.isReference)).map (.expr ·.value true) := by
  induction arguments generalizing operands s with
  | nil => rfl
  | cons a rest ih =>
    cases hmode : a.mode.isReference <;> simp [argumentVisits, hmode, ih]

@[simp] lemma map_fst_declaratorVisits (declarators : List Source.Declarator) (s : State) :
    (declaratorVisits c declarators s).map Prod.fst =
      ((declarators.filter fun d => (c.scope.get? d.id).isSome).filterMap
        Source.Declarator.initializer).map (.expr · true) := by
  induction declarators generalizing s with
  | nil => rfl
  | cons d rest ih =>
    cases hdescribed : (c.scope.get? d.id).isSome <;> cases hvalue : d.initializer <;>
      simp [declaratorVisits, hdescribed, hvalue, ih]

/-- What is visited inside a node is a part of it. -/
lemma node_mem_parts {v w : Visit × State} (h : w ∈ visits c v) :
    w.1.node ∈ v.1.node.parts := by
  have hfst : w.1 ∈ (visits c v).map Prod.fst := List.mem_map_of_mem h
  obtain ⟨v, s⟩ := v
  cases v with
  | expr e important =>
    by_cases hstrict : e.isStrict = true
    · simp only [visits, exprVisits_strict hstrict, map_fst_argumentVisits] at hfst
      obtain ⟨a, ha, hv⟩ := List.mem_map.mp hfst
      rw [← hv]
      exact Source.mem_parts_of_mem_inTurn (List.mem_filter.mp ha).1
    · cases e with
      | conditional i condition whenTrue whenFalse =>
        exact List.mem_map_of_mem (f := Visit.node) hfst
      | lambda i id parameters body =>
        have hnode := List.mem_map_of_mem (f := Visit.node) hfst
        cases body with
        | expr value => exact hnode
        | block body =>
          simpa [visits, exprVisits, Visit.node, Node.parts, Function.comp_def] using hnode
      | binary i op left right =>
        have hop : op.isShortCircuit = true := by simpa [Source.Expr.isStrict] using hstrict
        simp only [visits, exprVisits_lazy i hop] at hfst
        exact List.mem_map_of_mem (f := Visit.node) hfst
      | _ => exact absurd rfl hstrict
  | stmt t spliced =>
    cases t with
    | declare span declarators =>
      simp only [visits, stmtVisits, map_fst_declaratorVisits] at hfst
      obtain ⟨e, he, hv⟩ := List.mem_map.mp hfst
      obtain ⟨d, hd, he⟩ := List.mem_filterMap.mp he
      rw [← hv]
      exact List.mem_append_left _ (List.mem_map.mpr
        ⟨e, List.mem_filterMap.mpr ⟨d, (List.mem_filter.mp hd).1, he⟩, rfl⟩)
    | doWhile span body condition =>
      simp only [visits, stmtVisits, List.map_cons, List.map_nil, List.mem_cons, List.not_mem_nil,
        or_false] at hfst
      rcases hfst with hv | hv <;>
        simp [hv, Visit.node, Node.parts, Source.Stmt.expressions, Source.Stmt.statements]
    | comment | «break» | «continue» | empty | unsupported => cases h
    | _ =>
      have hnode := List.mem_map_of_mem (f := Visit.node) hfst
      simpa [visits, stmtVisits, Visit.node, Node.parts, Source.Stmt.expressions,
        Source.Stmt.statements, Function.comp_def] using hnode

/-- Every part of a proper node is visited, apart from variables passed by reference. -/
lemma visited_or_contained {v : Visit × State} (hproper : Proper c v.1.node) {n : Node}
    (hn : n ∈ v.1.node.parts) :
    (∃ w ∈ visits c v, w.1.node = n) ∨ ∃ e, n = .expr e ∧ c.IsContained e := by
  have hvisited : n ∈ ((visits c v).map Prod.fst).map Visit.node → ∃ w ∈ visits c v, w.1.node = n := by
    intro h
    obtain ⟨u, hu, hnode⟩ := List.mem_map.mp h
    obtain ⟨w, hw, rfl⟩ := List.mem_map.mp hu
    exact ⟨w, hw, hnode⟩
  obtain ⟨v, s⟩ := v
  cases v with
  | expr e important =>
    by_cases hstrict : e.isStrict = true
    · rw [Visit.node, Source.parts_strict hstrict] at hn
      obtain ⟨a, ha, rfl⟩ := List.mem_map.mp hn
      cases hmode : a.mode.isReference with
      | true => exact .inr ⟨_, rfl, hproper.2 a ha hmode⟩
      | false =>
        refine .inl (hvisited ?_)
        simp only [visits, exprVisits_strict hstrict, map_fst_argumentVisits, List.map_map]
        exact List.mem_map.mpr ⟨a, List.mem_filter.mpr ⟨ha, by simp [hmode]⟩, rfl⟩
    · refine .inl (hvisited ?_)
      cases e with
      | conditional i condition whenTrue whenFalse => exact hn
      | lambda i id parameters body =>
        cases body with
        | expr value => exact hn
        | block body =>
          simpa [visits, exprVisits, Visit.node, Node.parts, Function.comp_def] using hn
      | binary i op left right =>
        have hop : op.isShortCircuit = true := by simpa [Source.Expr.isStrict] using hstrict
        simp only [visits, exprVisits_lazy i hop]
        exact hn
      | _ => exact absurd rfl hstrict
  | stmt t spliced =>
    refine .inl (hvisited ?_)
    cases t with
    | declare span declarators =>
      have hall : declarators.filter (fun d => (c.scope.get? d.id).isSome) = declarators :=
        List.filter_eq_self.mpr hproper
      simpa [visits, stmtVisits, hall, Visit.node, Node.parts, Source.Stmt.expressions,
        Source.Stmt.statements, Function.comp_def] using hn
    | doWhile span body condition =>
      have hswap : n = .expr condition ∨ n = .stmt body := by
        simpa [Visit.node, Node.parts, Source.Stmt.expressions, Source.Stmt.statements] using hn
      simpa [visits, stmtVisits, Visit.node] using hswap.symm
    | comment | «break» | «continue» | empty | unsupported => cases hn
    | _ =>
      simpa [visits, stmtVisits, Visit.node, Node.parts, Source.Stmt.expressions,
        Source.Stmt.statements, Function.comp_def] using hn

/-- A body is well formed if and only if every visit finds what it asks for. -/
lemma wellFormed_iff {body : Source.Stmt} {s : State} :
    WellFormed c body s ↔
      ∀ v, Reached c (.stmt body true, s) v → Proper c v.1.node ∧ ConditionFits c v := by
  constructor
  · intro h v hv
    refine ⟨h.proper _ ?_, h.conditions v hv⟩
    clear h
    induction hv with
    | refl => exact .refl
    | tail _ hstep ih => exact ih.tail (node_mem_parts hstep)
  · intro h
    refine ⟨fun n hn => ?_, fun v hv => (h v hv).2⟩
    -- a part that is not visited is a variable, which has no parts
    have hvisited : (∃ v, Reached c (.stmt body true, s) v ∧ v.1.node = n) ∨
        ∃ e, n = .expr e ∧ c.IsContained e := by
      induction hn with
      | refl => exact .inl ⟨_, .refl, rfl⟩
      | tail _ hpart ih =>
        rcases ih with ⟨v, hv, rfl⟩ | ⟨e, rfl, he⟩
        · rcases visited_or_contained (h v hv).1 hpart with ⟨w, hw, hnode⟩ | hcontained
          · exact .inl ⟨w, hv.tail hw, hnode⟩
          · exact .inr hcontained
        · cases e with
          | localVar i id => cases hpart
          | _ => exact he.elim
    rcases hvisited with ⟨v, hv, rfl⟩ | ⟨e, rfl, he⟩
    · exact (h v hv).1
    · cases e with
      | localVar i id =>
        obtain ⟨d, hd, -⟩ := he
        exact ⟨by simp [ProperExpr, ProperAccess, Context.Describes, hd], fun a ha => by cases ha⟩
      | _ => exact he.elim

end ScriptCompiler.Lowering
