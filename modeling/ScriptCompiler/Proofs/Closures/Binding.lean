import ScriptCompiler.Proofs.Closures.Forests
import ScriptCompiler.Proofs.Closures.Propagation

/-!
# `this` inside functions

A function of the script has a `this` of its own, so a lambda that uses `this` must be bound where it
stands.  That the binding uses `this` itself, in the lambda around it, is why the use of `this`
counts for all lambdas around it.

`Node.readsThis` looks for `this` outside of lambdas and `Node.lambdaForest` lists the lambdas of a
tree with what they read; both describe the source without lowering it.  If a body comes with such a
forest (`Session.Describes`), then in the script of the body every `this` stands inside bound
functions only, and no lambda is bound without need (`Session.compileBody_binds_this`).
-/

namespace ScriptCompiler

namespace Source

/-! ## Uses of `this` in the source -/

/-- The nodes directly inside a node; the target of an assignment is one of them. -/
def Node.children : Node → List Node
  | .expr (.assign _ _ target value) => [.expr target, .expr value]
  | .expr (.increment _ _ target) => [.expr target]
  | n => n.parts

lemma sizeOf_lt_of_mem_children {n child : Node} (h : child ∈ n.children) :
    sizeOf child < sizeOf n := by
  unfold Node.children at h
  split at h
  · rcases List.mem_pair.mp h with rfl | rfl <;>
    · simp only [Node.expr.sizeOf_spec, Expr.assign.sizeOf_spec]
      omega
  · obtain rfl := List.mem_singleton.mp h
    simp only [Node.expr.sizeOf_spec, Expr.increment.sizeOf_spec]
    omega
  · exact sizeOf_lt_of_mem_parts h

/-- The sub-expressions of a target are inside it. -/
lemma mem_children_of_mem_operands {target : Expr} {a : Argument} (h : a ∈ target.operands) :
    .expr a.value ∈ (Node.expr target).children := by
  cases target with
  | field i object id | property i object id | indexer i object id arguments
  | element i array index =>
    exact List.mem_map.mpr ⟨a, h, rfl⟩
  | _ => cases h

/-- A part of a node is directly inside it, or inside the target of an assignment. -/
lemma mem_children_of_mem_parts {n part : Node} (h : part ∈ n.parts) :
    part ∈ n.children ∨ ∃ target ∈ n.children, part ∈ target.children := by
  unfold Node.children
  split
  · next i op target value =>
    obtain ⟨a, ha, rfl⟩ := List.mem_map.mp h
    rcases List.mem_append.mp ha with ha | ha
    · exact .inr ⟨.expr target, List.mem_cons_self, mem_children_of_mem_operands ha⟩
    · obtain rfl := List.mem_singleton.mp ha
      exact .inl (List.mem_cons_of_mem _ List.mem_cons_self)
  · next i kind target =>
    obtain ⟨a, ha, rfl⟩ := List.mem_map.mp h
    exact .inr ⟨.expr target, List.mem_cons_self, mem_children_of_mem_operands ha⟩
  · exact .inl h

/-- Whether the expression is a lambda. -/
def Expr.isLambda : Expr → Bool
  | .lambda .. => true
  | _ => false

namespace Node

/-- Whether the node is `this` or has it as its implicit object. -/
def isThis (p : Program) : Node → Bool
  | .expr e => e.isThis p
  | .stmt _ => false

/-- Whether the node is a lambda. -/
def isLambda : Node → Bool
  | .expr e => e.isLambda
  | .stmt _ => false

/-- Whether the node needs `this`.  What stands in lambdas inside it does not count. -/
def readsThis (p : Program) (n : Node) : Bool :=
  n.isThis p || (!n.isLambda && n.children.attach.any fun child => readsThis p child.1)
termination_by sizeOf n
decreasing_by exact sizeOf_lt_of_mem_children child.2

/-- The lambdas inside a node, under the node if it is a lambda itself. -/
def enclose (p : Program) (n : Node) (inside : List LambdaTree) : List LambdaTree :=
  match n with
  | .expr (.lambda _ id _ _) => [.mk id (n.children.any (readsThis p)) inside]
  | _ => inside

/-- The lambdas of a node and what they read, in the order of the text. -/
def lambdaForest (p : Program) (n : Node) : List LambdaTree :=
  n.enclose p (n.children.attach.flatMap fun child => lambdaForest p child.1)
termination_by sizeOf n
decreasing_by exact sizeOf_lt_of_mem_children child.2

/-- Whether the node needs `this`, also for lambdas inside it. -/
def usesThis (p : Program) (n : Node) : Bool :=
  n.readsThis p || LambdaTree.anyUsesThis (n.lambdaForest p)

end Node

end Source

namespace LambdaTree

lemma anyUsesThis_append (xs ys : List LambdaTree) :
    anyUsesThis (xs ++ ys) = (anyUsesThis xs || anyUsesThis ys) := by
  induction xs with
  | nil => rfl
  | cons tree rest ih => simp only [List.cons_append, anyUsesThis, ih, Bool.or_assoc]

lemma forestEntries_append (xs ys : List LambdaTree) :
    forestEntries (xs ++ ys) = forestEntries xs ++ forestEntries ys := by
  induction xs with
  | nil => rfl
  | cons tree rest ih => simp only [List.cons_append, forestEntries, ih, List.append_assoc]

lemma anyUsesThis_flatMap {α : Type} (f : α → List LambdaTree) (items : List α) :
    anyUsesThis (items.flatMap f) = items.any fun a => anyUsesThis (f a) := by
  induction items with
  | nil => rfl
  | cons a rest ih => rw [List.flatMap_cons, anyUsesThis_append, ih, List.any_cons]

lemma forestEntries_flatMap {α : Type} (f : α → List LambdaTree) (items : List α) :
    forestEntries (items.flatMap f) = items.flatMap fun a => forestEntries (f a) := by
  induction items with
  | nil => rfl
  | cons a rest ih => rw [List.flatMap_cons, forestEntries_append, ih, List.flatMap_cons]

/-- The forests are the same up to the order of lambdas that stand side by side. -/
inductive SameNesting : List LambdaTree → List LambdaTree → Prop where
  | nil : SameNesting [] []
  | cons (id : LambdaId) (readsThis : Bool) {nested nested' rest rest' : List LambdaTree} :
    SameNesting nested nested' → SameNesting rest rest' →
      SameNesting (.mk id readsThis nested :: rest) (.mk id readsThis nested' :: rest')
  | swap (first second : LambdaTree) (rest : List LambdaTree) :
    SameNesting (first :: second :: rest) (second :: first :: rest)
  | trans {xs ys zs : List LambdaTree} :
    SameNesting xs ys → SameNesting ys zs → SameNesting xs zs

/-- Forests with the same nesting have the same entries. -/
lemma SameNesting.perm_entries {xs ys : List LambdaTree} (h : SameNesting xs ys) :
    anyUsesThis xs = anyUsesThis ys ∧ (forestEntries xs).Perm (forestEntries ys) := by
  induction h with
  | nil => exact ⟨rfl, .refl _⟩
  | cons id readsThis hnested hrest ihnested ihrest =>
    obtain ⟨huses, hentries⟩ := ihnested
    obtain ⟨huses', hentries'⟩ := ihrest
    simp only [anyUsesThis, LambdaTree.usesThis, forestEntries, entries, huses, huses']
    exact ⟨trivial, (hentries.append hentries').cons _⟩
  | swap first second rest =>
    simp only [anyUsesThis, forestEntries, ← List.append_assoc]
    refine ⟨?_, List.perm_append_comm.append_right _⟩
    cases first.usesThis <;> cases second.usesThis <;> rfl
  | trans _ _ ih ih' => exact ⟨ih.1.trans ih'.1, ih.2.trans ih'.2⟩

end LambdaTree

/-- The entry of a lambda whose id no other one has. -/
lemma LambdaTable.get?_ofForest_of_mem {roots : List LambdaTree} {entry : LambdaEntry}
    (hdistinct : ((LambdaTree.forestEntries roots).map (·.id)).Nodup)
    (h : entry ∈ LambdaTree.forestEntries roots) :
    (ofForest roots).get? entry.id = some entry := by
  rw [(aligned_ofForest roots).get?_eq, entries_ofForest]
  cases hfound : (LambdaTree.forestEntries roots).reverse.find? (·.id == entry.id) with
  | none =>
    have hnone := List.find?_eq_none.mp hfound entry (List.mem_reverse.mpr h)
    exact absurd (beq_self_eq_true entry.id) hnone
  | some other =>
    have hmem := List.mem_reverse.mp (List.mem_of_find?_eq_some hfound)
    have hid : other.id = entry.id := by
      have hbeq := List.find?_some hfound
      exact beq_iff_eq.mp hbeq
    rw [List.inj_on_of_nodup_map hdistinct hmem h hid]

namespace Source

namespace Node

variable {p : Program} {n : Node}

lemma readsThis_eq : n.readsThis p =
    (n.isThis p || (!n.isLambda && n.children.any (readsThis p))) := by
  rw [readsThis]
  simp [List.any_subtype]

lemma lambdaForest_eq : n.lambdaForest p = n.enclose p (n.children.flatMap (lambdaForest p)) := by
  rw [lambdaForest]
  simp [List.flatMap_subtype]

/-- A node uses `this` if it needs it itself or something inside it does. -/
lemma usesThis_eq : n.usesThis p = (n.isThis p || n.children.any (usesThis p)) := by
  have hchildren : n.children.any (usesThis p) =
      (n.children.any (readsThis p) ||
        LambdaTree.anyUsesThis (n.children.flatMap (lambdaForest p))) := by
    rw [LambdaTree.anyUsesThis_flatMap, Bool.eq_iff_iff]
    simp only [usesThis, List.any_eq_true, Bool.or_eq_true, and_or_left, exists_or]
  rw [hchildren, usesThis, readsThis_eq, lambdaForest_eq]
  unfold enclose
  split
  · simp [isThis, Expr.isThis, isLambda, Expr.isLambda, LambdaTree.anyUsesThis, LambdaTree.usesThis]
  · next hlambda =>
    have hnot : n.isLambda = false := by
      cases n with
      | stmt t => rfl
      | expr e =>
        cases e with
        | lambda i id parameters body => exact (hlambda i id parameters body rfl).elim
        | _ => rfl
    rw [hnot, Bool.not_false, Bool.true_and, Bool.or_assoc]

/-- What does not use `this` has no part that does. -/
lemma usesThis_of_mem_parts (h : n.usesThis p = false) {part : Node} (hpart : part ∈ n.parts) :
    part.usesThis p = false := by
  have hchild : ∀ {n child : Node}, n.usesThis p = false → child ∈ n.children →
      child.usesThis p = false := by
    intro n child hn hmem
    rw [usesThis_eq, Bool.or_eq_false_iff, List.any_eq_false] at hn
    exact Bool.eq_false_iff.mpr (hn.2 child hmem)
  rcases mem_children_of_mem_parts hpart with hpart | ⟨target, htarget, hpart⟩
  · exact hchild h hpart
  · exact hchild (hchild h htarget) hpart

lemma usesThis_of_contains (h : n.usesThis p = false) {part : Node} (hpart : Contains n part) :
    part.usesThis p = false := by
  induction hpart with
  | refl => exact h
  | tail _ hmem ih => exact usesThis_of_mem_parts ih hmem

/-- The lambdas of a part are among those of the node. -/
lemma forestEntries_subset {part : Node} (hpart : part ∈ n.parts) :
    LambdaTree.forestEntries (part.lambdaForest p) ⊆
      LambdaTree.forestEntries (n.lambdaForest p) := by
  have hchild : ∀ {n child : Node}, child ∈ n.children →
      LambdaTree.forestEntries (child.lambdaForest p) ⊆
        LambdaTree.forestEntries (n.lambdaForest p) := by
    intro n child hmem entry hentry
    have hinside : entry ∈ LambdaTree.forestEntries (n.children.flatMap (lambdaForest p)) := by
      rw [LambdaTree.forestEntries_flatMap]
      exact List.mem_flatMap.mpr ⟨child, hmem, hentry⟩
    rw [lambdaForest_eq (n := n)]
    unfold enclose
    split
    · simp only [LambdaTree.forestEntries, LambdaTree.entries, List.append_nil]
      exact List.mem_cons_of_mem _ hinside
    · exact hinside
  rcases mem_children_of_mem_parts hpart with hpart | ⟨target, htarget, hpart⟩
  · exact hchild hpart
  · exact fun entry hentry => hchild htarget (hchild hpart hentry)

/-- A lambda of a tree is in its forest, with its use of `this`. -/
lemma mem_forestEntries_of_contains {i : Info} {id : LambdaId} {parameters : List VariableId}
    {body : LambdaBody} (h : Contains n (.expr (.lambda i id parameters body))) :
    { id, usesThis := (Node.expr (.lambda i id parameters body)).usesThis p } ∈
      LambdaTree.forestEntries (n.lambdaForest p) := by
  induction h using Relation.ReflTransGen.head_induction_on with
  | refl =>
    have huses : (Node.expr (.lambda i id parameters body)).usesThis p =
        ((Node.expr (.lambda i id parameters body)).children.any (readsThis p) ||
          LambdaTree.anyUsesThis
            ((Node.expr (.lambda i id parameters body)).children.flatMap (lambdaForest p))) := by
      rw [usesThis, readsThis_eq, lambdaForest_eq]
      simp [enclose, isThis, Expr.isThis, isLambda, Expr.isLambda, LambdaTree.anyUsesThis,
        LambdaTree.usesThis]
    rw [huses, lambdaForest_eq]
    exact List.mem_cons_self
  | head hpart _ ih => exact forestEntries_subset hpart ih

end Node

end Source

namespace Lowering

open Script (Sight SurvivesBinding stmtsSights)
open Source (Node Contains)

variable {c : Context} {root : Node}

/-! ## Functions in the script -/

/-- The table of lambdas knows of every lambda of the tree whether it uses `this`. -/
def Context.TracksThis (c : Context) (root : Node) : Prop :=
  ∀ i id parameters body, Contains root (.expr (.lambda i id parameters body)) →
    (c.lambdas.get? id).any (·.usesThis) =
      (Node.expr (.lambda i id parameters body)).usesThis c.program

/-- The sight is not `this`. -/
def IsOther : Sight → Prop
  | .this _ => False
  | .function .. => True

/-- What does not use `this` is lowered without it. -/
lemma only_isOther (htracks : c.TracksThis root) {e : Source.Expr} (he : Contains root (.expr e))
    (h : (Node.expr e).usesThis c.program = false) (important : Bool) :
    Gives (lowerExpr c e important) (·.Only IsOther) := by
  have hsurvives : SurvivesBinding IsOther := by
    intro x hx
    cases x with
    | this within => exact hx.elim
    | function name parameters body => trivial
  refine (only_lower hsurvives).1 e (fun n hn => ?_) important
  have hthis : n.usesThis c.program = false := Node.usesThis_of_contains h hn
  rw [Node.usesThis_eq, Bool.or_eq_false_iff, List.any_eq_false] at hthis
  obtain ⟨hself, hchildren⟩ := hthis
  -- the target of an assignment is inside it, so it is not an access through `this` either
  have htarget : ∀ target, .expr target ∈ n.children → target.isThis c.program = true →
      IsOther (.this []) := by
    intro target hmem htrue
    have hchild := hchildren _ hmem
    rw [Node.usesThis_eq] at hchild
    exact (hchild (by rw [Node.isThis, htrue]; rfl)).elim
  cases n with
  | stmt t => trivial
  | expr e' =>
    cases e' with
    | assign i op target value | increment i kind target => exact htarget target List.mem_cons_self
    | lambda i id parameters body =>
      intro important s head statements hvalue hstatements
      have hunbound : (c.lambdas.get? id).any (·.usesThis) = false := by
        rw [htracks i id parameters body (he.trans hn)]
        exact Node.usesThis_of_contains h hn
      unfold lambdaValue bindThis
      rw [hunbound]
      refine Script.Expr.only_function.mpr ⟨trivial, fun x hx => ?_⟩
      have hother := Script.only_stmts.mpr hstatements x hx
      cases x with
      | this within => exact hother.elim
      | function name parameters body => trivial
    | _ => exact fun htrue => (Bool.eq_false_iff.mp hself htrue).elim

/-- A `this` has only bound functions around it.  A function is what a lambda of the tree is lowered
to, and the lambda is bound exactly if it uses `this`. -/
def IsFaithful (c : Context) (root : Node) : Sight → Prop
  | .this within => ∀ bound ∈ within, bound = true
  | .function name parameters body => ∃ e, e.isLambda = true ∧ Contains root (.expr e) ∧
      ∃ important s, (lowerExpr c e important s).1.value =
        bindThis ((Node.expr e).usesThis c.program) (.function name parameters body)

lemma only_isFaithful (htracks : c.TracksThis root) {t : Source.Stmt} (ht : root = .stmt t)
    (spliced : Bool) :
    Gives (lowerStmt c t spliced) fun out => ∀ u ∈ out, u.Only (IsFaithful c root) := by
  have hsurvives : SurvivesBinding (IsFaithful c root) := by
    intro x hx
    cases x with
    | this within => exact absurd (hx false List.mem_cons_self) Bool.false_ne_true
    | function name parameters body => exact hx
  refine (only_lower hsurvives).2 t (fun n hn => ?_) spliced
  rw [← ht] at hn
  have hnone : IsFaithful c root (.this []) := fun _ hbound => (by cases hbound)
  cases n with
  | stmt u => trivial
  | expr e =>
    cases e with
    | assign i op target value => exact fun _ => hnone
    | increment i kind target => exact fun _ => hnone
    | lambda i id parameters body =>
      intro important s head statements hvalue hstatements
      have huses := htracks i id parameters body hn
      have hfunction : IsFaithful c root (.function none head.1 (head.2 ++ statements)) := by
        refine ⟨_, rfl, hn, important, s, ?_⟩
        rw [hvalue, lambdaValue, huses]
      by_cases hthis : (Node.expr (.lambda i id parameters body)).usesThis c.program = true
      · -- a bound function passes the `this` of its body on, with itself around it
        have hbound : (lambdaValue c id head statements).value =
            .call (.member (.function none head.1 (head.2 ++ statements)) "bind") [.this] := by
          rw [lambdaValue, huses, hthis]
          rfl
        rw [hbound]
        refine Script.Expr.only_bound.mpr ⟨hfunction, fun x hx => ?_, hnone⟩
        have hfaithful := Script.only_stmts.mpr hstatements x hx
        cases x with
        | this within => exact List.forall_mem_cons.mpr ⟨rfl, hfaithful⟩
        | function name parameters body => exact hfaithful
      · -- the body of any other function has no `this` at all
        rw [Bool.not_eq_true] at hthis
        have hplain : (lambdaValue c id head statements).value =
            .function none head.1 (head.2 ++ statements) := by
          rw [lambdaValue, huses, hthis]
          rfl
        have hother := (only_isOther htracks hn hthis important s).2
        rw [hvalue, hplain] at hother
        obtain ⟨-, hbody⟩ := Script.Expr.only_function.mp hother
        rw [hplain]
        refine Script.Expr.only_function.mpr ⟨hfunction, fun x hx => ?_⟩
        have hfaithful := Script.only_stmts.mpr hstatements x hx
        cases x with
        | this within => exact (hbody _ hx).elim
        | function name parameters body => exact hfaithful
    | _ => exact fun _ => hnone

end Lowering

namespace Session

open Lowering
open Source (Node Contains)

/-- The lambdas of the body are described as they stand in it, under ids of their own. -/
structure Describes (s : Session) (b : Body) : Prop where
  nesting : LambdaTree.SameNesting b.lambdas ((Node.stmt b.statement).lambdaForest s.program)
  distinct : ((LambdaTree.forestEntries b.lambdas).map (·.id)).Nodup

lemma Describes.tracksThis {s : Session} {b : Body} (h : s.Describes b) :
    (s.context b).TracksThis (.stmt b.statement) := by
  intro i id parameters body hcontains
  have hmem := h.nesting.perm_entries.2.mem_iff.mpr
    (Node.mem_forestEntries_of_contains (p := s.program) hcontains)
  have hentry := LambdaTable.get?_ofForest_of_mem h.distinct hmem
  change ((LambdaTable.ofForest b.lambdas).get? id).any (·.usesThis) = _
  rw [hentry]
  rfl

/-- In the script of a body whose lambdas are described as they are, all functions around a `this` are
bound.  A lambda is lowered to a function that is bound exactly if the lambda, or one inside it, uses
`this`; and all functions of the script come from lambdas in this way. -/
theorem compileBody_binds_this {s : Session} {b : Body} {r r' : Reporter} {out : List Script.Stmt}
    (hb : s.Describes b) (hout : s.compileBody b r = some (out, r')) :
    (∀ within, .this within ∈ Script.stmtsSights out → ∀ bound ∈ within, bound = true) ∧
      (∀ e : Source.Expr, e.isLambda = true → Contains (.stmt b.statement) (.expr e) →
        ∀ important st, ∃ parameters body, (lowerExpr (s.context b) e important st).1.value =
          bindThis ((Node.expr e).usesThis s.program) (.function none parameters body)) ∧
      ∀ name parameters body, .function name parameters body ∈ Script.stmtsSights out →
        ∃ e : Source.Expr, e.isLambda = true ∧ Contains (.stmt b.statement) (.expr e) ∧
          ∃ important st, (lowerExpr (s.context b) e important st).1.value =
            bindThis ((Node.expr e).usesThis s.program) (.function name parameters body) := by
  have hsights : ∀ x ∈ Script.stmtsSights out, IsFaithful (s.context b) (.stmt b.statement) x := by
    rw [← lowerStmt_of_compileBody hout]
    exact Script.only_stmts.mpr (only_isFaithful hb.tracksThis rfl true _)
  refine ⟨fun within hx => hsights _ hx, fun e he hcontains important st => ?_,
    fun name parameters body hx => hsights _ hx⟩
  cases e with
  | lambda i id parameters body =>
    rw [lowerExpr_lambda]
    have huses := hb.tracksThis i id parameters body hcontains
    exact ⟨_, _, congrArg (bindThis · _) huses⟩
  | _ => cases he

/-- `() => () => this` next to `() => null`, with the descriptions in the opposite order. -/
def closuresSample : Body where
  lambdas := [.mk ⟨2⟩ false [], .mk ⟨0⟩ false [.mk ⟨1⟩ true []]]
  statement := .block {}
    [.expr {} (.lambda {} ⟨0⟩ [] (.expr (.lambda {} ⟨1⟩ [] (.expr (.this {}))))),
     .expr {} (.lambda {} ⟨2⟩ [] (.expr (.constant {} .null)))]

lemma describes_closuresSample : Session.Describes {} closuresSample where
  nesting := by
    have hforest : (Node.stmt closuresSample.statement).lambdaForest {} =
        [.mk ⟨0⟩ false [.mk ⟨1⟩ true []], .mk ⟨2⟩ false []] := by
      simp [closuresSample, Node.lambdaForest_eq, Node.enclose, Node.children, Node.parts,
        Source.Stmt.expressions, Source.Stmt.statements, Node.readsThis_eq, Node.isThis,
        Node.isLambda, Source.Expr.isThis, Source.Expr.isLambda, Source.Expr.inTurn]
    rw [show Session.program {} = {} from rfl, hforest]
    exact .swap _ _ _
  distinct := by decide

/-- In the script of the sample `this` is read inside of two functions, and both are bound; the last
function is not. -/
theorem compileBody_binds_this_closuresSample :
    Session.Describes {} closuresSample ∧
      ∃ out r', Session.compileBody {} closuresSample {} = some (out, r') ∧
        Script.stmtsSights out = [.function none [] [.return (some
            (bindThis true (.function none [] [.return (some .this)])))],
          .function none [] [.return (some .this)], .this [true, true], .this [true], .this [],
          .function none [] [.return (some .null)]] ∧
        (∀ within, .this within ∈ Script.stmtsSights out → ∀ bound ∈ within, bound = true) ∧
        (∀ e : Source.Expr, e.isLambda = true →
          Contains (.stmt closuresSample.statement) (.expr e) → ∀ important st,
            ∃ parameters body, (lowerExpr (Session.context {} closuresSample) e important
              st).1.value = bindThis ((Node.expr e).usesThis {}) (.function none parameters body)) ∧
        ∀ name parameters body, .function name parameters body ∈ Script.stmtsSights out →
          ∃ e : Source.Expr, e.isLambda = true ∧
            Contains (.stmt closuresSample.statement) (.expr e) ∧ ∃ important st,
              (lowerExpr (Session.context {} closuresSample) e important st).1.value =
                bindThis ((Node.expr e).usesThis {}) (.function name parameters body) :=
  ⟨describes_closuresSample, _, _, rfl, rfl,
    compileBody_binds_this (r := {}) describes_closuresSample rfl⟩

end Session

end ScriptCompiler
