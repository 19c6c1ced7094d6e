import ScriptCompiler.Proofs.Semantics.Behavior
import ScriptCompiler.Proofs.Semantics.Machine

/-!
# Running the script

`Expr.eval` evaluates a script expression: operands run from left to right, lazy operators and
conditionals evaluate only what they need, and an assignment evaluates its target before its value.
`Stmt.behavior` gives the runs of a statement.

A declaration without an initial value leaves the variable as it is: variables belong to the whole
function, so declaring one again in a loop does not reset it.
-/

namespace ScriptCompiler.Script

open Machine

/-- Whether the operator may leave its right operand unevaluated. -/
def BinaryOp.isLazy : BinaryOp → Bool
  | .logicalAnd | .logicalOr | .nullCoalescing => true
  | _ => false

/-- The operator by which a prefix update changes its operand. -/
def UnaryOp.change : UnaryOp → BinaryOp
  | .preDecrement => .subtract
  | _ => .add

/-- The operator by which a postfix update changes its operand. -/
def UpdateOp.change : UpdateOp → BinaryOp
  | .increment => .add
  | .decrement => .subtract

variable {V H : Type*}

/-- Whether the value of the left operand is already the value of a lazy operator. -/
def settles (P : Primitives V H) : BinaryOp → V → Bool
  | .logicalAnd, v => !P.truthy v
  | .logicalOr, v => P.truthy v
  | .nullCoalescing, v => !P.isNull v
  | _, _ => false

/-- The value of an identifier. -/
def lookup (P : Primitives V H) (m : Memory String V H) (x : String) : V :=
  (P.global x).getD (m.vars x)

mutual

/-- The value of an expression and the memory after its evaluation. -/
def Expr.eval (P : Primitives V H) : Expr → Memory String V H → V × Memory String V H
  | .null, m => (P.null, m)
  | .boolean value, m => (P.ofBool value, m)
  | .number value, m => (P.number value, m)
  | .string value, m => (P.string value, m)
  | .ident x, m => (lookup P m x, m)
  | .this, m => (P.this, m)
  | .member target name, m =>
    let o := target.eval P m
    o.2.act (P.readMember o.1 name)
  | .index target key, m =>
    let o := target.eval P m
    let k := key.eval P o.2
    k.2.act (P.getElement o.1 k.1)
  | .call (.member target name) arguments, m =>
    let o := target.eval P m
    let vs := evalAll P arguments o.2
    vs.2.act (P.call o.1 name vs.1)
  | .call target arguments, m =>
    let f := target.eval P m
    let vs := evalAll P arguments f.2
    vs.2.act (P.invoke f.1 vs.1)
  | .new constructor arguments, m =>
    let f := constructor.eval P m
    let vs := evalAll P arguments f.2
    vs.2.act (P.construct f.1 vs.1)
  | .object properties, m =>
    let fields := evalProperties P properties m
    fields.2.act (P.newObject fields.1)
  | .array items, m =>
    let vs := evalAll P items m
    vs.2.act (P.array vs.1)
  | .binary op left right, m =>
    let a := left.eval P m
    if op.isLazy then
      if settles P op a.1 then a else right.eval P a.2
    else
      let b := right.eval P a.2
      b.2.act (P.binary op a.1 b.1)
  | .unary op operand, m =>
    if op.isUpdate then
      let l := operand.slot P m
      let r := l.1.update P op.change l.2
      (r.1.2, r.2)
    else
      let v := operand.eval P m
      v.2.act (P.unary op v.1)
  | .update op operand, m =>
    let l := operand.slot P m
    let r := l.1.update P op.change l.2
    (r.1.1, r.2)
  | .assign none target value, m =>
    let l := target.slot P m
    let v := value.eval P l.2
    (v.1, l.1.write P v.1 v.2)
  | .assign (some op) target value, m =>
    let l := target.slot P m
    if op.isLazy then
      let old := l.1.read P l.2
      if settles P op old.1 then old
      else
        let v := value.eval P old.2
        (v.1, l.1.write P v.1 v.2)
    else l.1.modify P (P.binary op) (value.eval P) l.2
  | .conditional condition whenTrue whenFalse, m =>
    let b := condition.eval P m
    if P.truthy b.1 then whenTrue.eval P b.2 else whenFalse.eval P b.2
  | .function name parameters body, m => (P.function (.function name parameters body), m)
  | .comma items, m =>
    let vs := evalAll P items m
    (vs.1.getLast?.getD P.null, vs.2)

/-- The slot that an expression denotes as the target of an assignment.  Assigning a name with a
fixed meaning does not change the meaning. -/
def Expr.slot (P : Primitives V H) : Expr → Memory String V H → Slot String V × Memory String V H
  | .ident x, m => (.var x, m)
  | .member target name, m =>
    let o := target.eval P m
    (.member o.1 name, o.2)
  | .index target key, m =>
    let o := target.eval P m
    let k := key.eval P o.2
    (.element o.1 k.1, k.2)
  | _, m => (.nowhere, m)

/-- The values of expressions evaluated in turn. -/
def evalAll (P : Primitives V H) : List Expr → Memory String V H → List V × Memory String V H
  | [], m => ([], m)
  | e :: rest, m =>
    let v := e.eval P m
    let vs := evalAll P rest v.2
    (v.1 :: vs.1, vs.2)

/-- The fields of an object literal, their values evaluated in turn. -/
def evalProperties (P : Primitives V H) :
    List Property → Memory String V H → List (String × V) × Memory String V H
  | [], m => ([], m)
  | .mk name e :: rest, m =>
    let v := e.eval P m
    let fields := evalProperties P rest v.2
    ((name, v.1) :: fields.1, fields.2)

end

/-- Expressions evaluated in turn, one part of the list after the other. -/
lemma evalAll_append (P : Primitives V H) (es fs : List Expr) (m : Memory String V H) :
    evalAll P (es ++ fs) m =
      ((evalAll P es m).1 ++ (evalAll P fs (evalAll P es m).2).1,
        (evalAll P fs (evalAll P es m).2).2) := by
  induction es generalizing m with
  | nil => rfl
  | cons e es ih => simp only [List.cons_append, evalAll, ih]

/-- Every expression has one value. -/
lemma length_evalAll (P : Primitives V H) (es : List Expr) (m : Memory String V H) :
    (evalAll P es m).1.length = es.length := by
  induction es generalizing m with
  | nil => rfl
  | cons e es ih => simp only [evalAll, List.length_cons, ih]

/-- Declares names in turn. -/
def declareAll (P : Primitives V H) : List Binding → Memory String V H → Memory String V H
  | [], m => m
  | .mk _ none :: rest, m => declareAll P rest m
  | .mk x (some e) :: rest, m =>
    let v := e.eval P m
    declareAll P rest (v.2.set x v.1)

/-- The test that an expression stands for. -/
def Expr.test (P : Primitives V H) (e : Expr) (m : Memory String V H) :
    Bool × Memory String V H :=
  let v := e.eval P m
  (P.truthy v.1, v.2)

mutual

/-- The runs of a statement. -/
def Stmt.behavior (P : Primitives V H) : Stmt → Behavior (Memory String V H) V
  | .comment _ => .step id
  | .declare bindings => .step (declareAll P bindings)
  | .expr e => .step fun m => (e.eval P m).2
  | .block body => behaviorAll P body
  | .return none => .ends fun m => (.return none, m)
  | .return (some e) => .ends fun m => (.return (some (e.eval P m).1), (e.eval P m).2)
  | .branch condition thenBranch none =>
    .choose (condition.test P) (thenBranch.behavior P) (.step id)
  | .branch condition thenBranch (some elseBranch) =>
    .choose (condition.test P) (thenBranch.behavior P) (elseBranch.behavior P)
  | .whileLoop condition body =>
    Behavior.Loop (Behavior.whileRound (condition.test P) (body.behavior P))
  | .doWhile body condition =>
    Behavior.Loop (Behavior.doWhileRound (body.behavior P) (condition.test P))
  | .break => .ends fun m => (.break, m)
  | .continue => .ends fun m => (.continue, m)
  | .throw e => .ends fun m => (.throw (e.eval P m).1, (e.eval P m).2)
  | .empty => .step id

/-- The runs of a list of statements. -/
def behaviorAll (P : Primitives V H) : List Stmt → Behavior (Memory String V H) V
  | [] => .step id
  | s :: rest => .seq (s.behavior P) (behaviorAll P rest)

end

/-- The runs of an else branch that may be missing. -/
def elseBehavior (P : Primitives V H) : Option Stmt → Behavior (Memory String V H) V
  | none => .step id
  | some s => s.behavior P

/-- A branch chooses between its two parts. -/
lemma behavior_branch (P : Primitives V H) (condition : Expr) (thenBranch : Stmt)
    (elseBranch : Option Stmt) : (Stmt.branch condition thenBranch elseBranch).behavior P =
      .choose (condition.test P) (thenBranch.behavior P) (elseBehavior P elseBranch) := by
  cases elseBranch <;> rfl

/-! ## Statements that run to their end

The statements that lowering an expression emits contain no loop, no jump and no return: from every
memory there is one run, and it ends normally. -/

section Completes

variable {P : Primitives V H} {body rest : List Stmt} {m m₁ m₂ : Memory String V H}

/-- From `m`, the statements have exactly one run: it ends normally in `m'`. -/
def Completes (P : Primitives V H) (body : List Stmt) (m m' : Memory String V H) : Prop :=
  ∀ o m₁, behaviorAll P body m o m₁ ↔ o = .normal ∧ m₁ = m'

/-- A list of statements runs one part after the other. -/
lemma behaviorAll_append (body rest : List Stmt) (m : Memory String V H) (o : Outcome V)
    (m' : Memory String V H) :
    behaviorAll P (body ++ rest) m o m' ↔
      Behavior.seq (behaviorAll P body) (behaviorAll P rest) m o m' := by
  induction body generalizing m o m' with
  | nil => exact (Behavior.step_id_seq _ m o m').symm
  | cons s body ih =>
    have hseq : ∀ m o m', Behavior.seq (s.behavior P) (behaviorAll P (body ++ rest)) m o m' ↔
        Behavior.seq (s.behavior P)
          (Behavior.seq (behaviorAll P body) (behaviorAll P rest)) m o m' := by
      intro m o m'
      simp only [Behavior.seq, ih]
    exact (hseq m o m').trans (Behavior.seq_assoc _ _ _ m o m')

/-- A list of one statement runs as the statement. -/
lemma behaviorAll_singleton (s : Stmt) (m : Memory String V H) (o : Outcome V)
    (m' : Memory String V H) : behaviorAll P [s] m o m' ↔ s.behavior P m o m' :=
  Behavior.seq_step_id _ m o m'

/-- There is only one memory to end in. -/
lemma Completes.unique (h : Completes P body m m₁) (h' : Completes P body m m₂) : m₁ = m₂ :=
  ((h' .normal m₁).mp ((h .normal m₁).mpr ⟨rfl, rfl⟩)).2

/-- Behind statements that complete, a list runs from where they end. -/
lemma Completes.behaviorAll_append (h : Completes P body m m₁) (o : Outcome V)
    (m' : Memory String V H) :
    behaviorAll P (body ++ rest) m o m' ↔ behaviorAll P rest m₁ o m' := by
  rw [Script.behaviorAll_append]
  constructor
  · rintro (⟨m₂, hb, hr⟩ | ⟨ho, hb⟩)
    · rwa [((h _ _).mp hb).2] at hr
    · exact absurd ((h _ _).mp hb).1 ho
  · exact fun hr => Or.inl ⟨m₁, (h _ _).mpr ⟨rfl, rfl⟩, hr⟩

/-- Running nothing changes nothing. -/
lemma completes_nil (m : Memory String V H) : Completes P [] m m := fun _ _ => Iff.rfl

/-- Statements that complete may follow each other. -/
lemma Completes.append (h : Completes P body m m₁) (h' : Completes P rest m₁ m₂) :
    Completes P (body ++ rest) m m₂ := fun o m' =>
  (h.behaviorAll_append o m').trans (h' o m')

/-- A single statement completes if it has one run. -/
lemma completes_singleton {s : Stmt} (h : ∀ o m', s.behavior P m o m' ↔ o = .normal ∧ m' = m₁) :
    Completes P [s] m m₁ := by
  intro o m'
  constructor
  · rintro (⟨m₂, hs, hm⟩ | ⟨ho, hs⟩)
    · exact ⟨hm.1, hm.2.trans ((h _ _).mp hs).2⟩
    · exact absurd ((h _ _).mp hs).1 ho
  · rintro ⟨rfl, rfl⟩
    exact .inl ⟨m', (h _ _).mpr ⟨rfl, rfl⟩, ⟨rfl, rfl⟩⟩

/-- An expression statement evaluates its expression. -/
lemma completes_expr (e : Expr) (m : Memory String V H) :
    Completes P [.expr e] m (e.eval P m).2 :=
  completes_singleton fun _ _ => Iff.rfl

/-- An assignment gives an identifier its value. -/
lemma completes_set (x : String) (e : Expr) (m : Memory String V H) :
    Completes P [.expr (.set (.ident x) e)] m ((e.eval P m).2.set x (e.eval P m).1) :=
  completes_singleton fun _ _ => Iff.rfl

/-- A declaration with an initial value assigns it. -/
lemma completes_var (x : String) (e : Expr) (m : Memory String V H) :
    Completes P [.var x (some e)] m ((e.eval P m).2.set x (e.eval P m).1) :=
  completes_singleton fun _ _ => Iff.rfl

/-- A declaration without an initial value changes nothing. -/
lemma completes_var_none (x : String) (m : Memory String V H) :
    Completes P [.var x none] m m :=
  completes_singleton fun _ _ => Iff.rfl

/-- A branch whose condition holds completes if its first block does. -/
lemma completes_branch_true {condition : Expr} {whenTrue : List Stmt} {otherwise : Option Stmt}
    (hc : P.truthy (condition.eval P m).1 = true)
    (h : Completes P whenTrue (condition.eval P m).2 m₁) :
    Completes P [.branch condition (.block whenTrue) otherwise] m m₁ := by
  refine completes_singleton fun o m' => ?_
  have htest : (condition.test P m).1 = true := hc
  cases otherwise with
  | none | some _ => exact (Behavior.choose_of_true htest _ _ o m').trans (h o m')

/-- A branch whose condition fails completes if its second block does. -/
lemma completes_branch_false {condition : Expr} {whenTrue : Stmt} {whenFalse : List Stmt}
    (hc : P.truthy (condition.eval P m).1 = false)
    (h : Completes P whenFalse (condition.eval P m).2 m₁) :
    Completes P [.branch condition whenTrue (some (.block whenFalse))] m m₁ := by
  refine completes_singleton fun o m' => ?_
  have htest : (condition.test P m).1 = false := hc
  exact (Behavior.choose_of_false htest _ _ o m').trans (h o m')

/-- A branch whose condition fails does nothing if it has no second block. -/
lemma completes_branch_skip {condition : Expr} {whenTrue : Stmt}
    (hc : P.truthy (condition.eval P m).1 = false) :
    Completes P [.branch condition whenTrue none] m (condition.eval P m).2 := by
  refine completes_singleton fun o m' => ?_
  have htest : (condition.test P m).1 = false := hc
  exact Behavior.choose_of_false htest _ (.step id) o m'

end Completes

end ScriptCompiler.Script
