import ScriptCompiler.Proofs.Closures.Sights
import ScriptCompiler.Proofs.Traversal.Keeping

/-!
# Sights of what is lowered

A property of sights that a binding cannot break is an invariant of lowering: every operation passes
it on from the scripts that go into it to the script that comes out (`kept_sights`).  So it holds of
everything that is lowered, if it holds of `this` wherever the source needs `this` and is passed on
from the body of a function to the function (`only_lower`).
-/

namespace ScriptCompiler.Lowering

open Script (Sight SurvivesBinding)

variable {c : Context} {P : Sight → Prop}

/-- The sights of a value and of the statements that it needs satisfy `P`. -/
def Lowered.Only (P : Sight → Prop) (l : Lowered) : Prop :=
  (∀ s ∈ l.before, s.Only P) ∧ l.value.Only P

/-- The one world of an invariant that does not depend on the run. -/
inductive Timeless where
  | now

instance : Preorder Timeless where
  le _ _ := True
  le_refl _ := trivial
  le_trans _ _ _ _ _ := trivial

/-- All sights of scripts satisfy `P`. -/
def Invariant.sights (P : Sight → Prop) : Invariant Timeless where
  At _ _ := True
  Holds _ _ e := e.Only P
  Stmts _ _ b := ∀ s ∈ b, s.Only P
  Bound _ bs := ∀ b ∈ bs, ∀ e ∈ b.initializer, e.Only P

/-- A step that gives scripts with such sights keeps the invariant. -/
lemma Gives.tracks {α : Type} {step : Lower α} {Q : α → Prop} (h : Gives step Q)
    (w : Timeless) :
    (Invariant.sights P).Tracks step w fun a _ => Q a :=
  fun s _ => ⟨w, le_refl w, trivial, h s⟩

/-! ## Variables and members -/

/-- Parts of a dotted name are no sights. -/
lemma only_dottedName (name : String) : (dottedName name).Only P := by
  have hmember : ∀ (rest : List String) (e : Script.Expr), e.Only P →
      (rest.foldl Script.Expr.member e).Only P := by
    intro rest
    induction rest with
    | nil => exact fun e he => he
    | cons part rest ih => exact fun e he => ih (.member e part) he
  unfold dottedName
  split
  · exact Script.Expr.only_ident _
  · exact hmember _ _ (Script.Expr.only_ident _)

/-- A variable is read without a sight. -/
lemma gives_readVariable (id : VariableId) : Gives (readVariable c id) (·.Only P) := by
  unfold readVariable
  split
  · refine .pure ?_
    split <;> exact Script.only_of_sights_eq_nil rfl
  · exact gives_bind fun _ => .pure (Script.Expr.only_ident _)

/-- So is one that is passed by reference. -/
lemma gives_passReference (e : Source.Expr) : Gives (passReference c e) (·.Only P) := by
  unfold passReference
  split
  · split
    · dsimp only
      split
      · exact .pure (Script.Expr.only_ident _)
      · exact gives_bind fun _ => .pure (Script.Expr.only_ident _)
    · exact gives_bind fun _ => .pure (Script.Expr.only_ident _)
  · exact gives_bind fun _ => .pure (Script.only_of_sights_eq_nil rfl)

/-! ## Statements -/

/-- Parameters are put into containers by statements without sights. -/
lemma Wraps.only {names : List String} {s : Script.Stmt} (h : Wraps c names s) : s.Only P := by
  obtain ⟨_, v, -, -, -, rfl⟩ := h
  refine List.forall_mem_append.mpr ⟨Script.Expr.only_ident _, ?_⟩
  exact Script.Expr.only_object.mpr (List.forall_mem_singleton.mpr (Script.Expr.only_ident _))

/-- A container around an initial value adds no sights. -/
lemma only_bindingOf {v : Variable} {initializer : Option Script.Expr}
    (h : ∀ e ∈ initializer, e.Only P) : ∀ e ∈ (bindingOf c v initializer).initializer, e.Only P := by
  unfold bindingOf
  split
  · intro e he
    obtain rfl := Option.some.inj he
    refine Script.Expr.only_object.mpr (List.forall_mem_singleton.mpr ?_)
    cases initializer with
    | none => exact Script.only_of_sights_eq_nil rfl
    | some e => exact h e rfl
  · exact h

/-- Statements that become parts of a comma expression. -/
lemma only_commaParts {statements : List Script.Stmt}
    {declared : List Script.Binding} {parts : List Script.Expr}
    (hparts : commaParts? statements = some (declared, parts)) (h : ∀ s ∈ statements, s.Only P) :
    (∀ b ∈ declared, ∀ e ∈ b.initializer, e.Only P) ∧ ∀ e ∈ parts, e.Only P := by
  induction statements generalizing declared parts with
  | nil =>
    cases hparts
    exact ⟨fun _ hb => (by cases hb), fun _ he => (by cases he)⟩
  | cons s rest ih =>
    obtain ⟨declared', parts', hrest, hcases⟩ := commaParts?_cons hparts
    obtain ⟨hs, hstatements⟩ := List.forall_mem_cons.mp h
    obtain ⟨hdeclared, hparts'⟩ := ih hrest hstatements
    rcases hcases with ⟨e, rfl, rfl, rfl⟩ | ⟨name, initializer, rfl, rfl, rfl⟩
    · exact ⟨hdeclared, List.forall_mem_cons.mpr ⟨hs, hparts'⟩⟩
    · have hinitializer := List.forall_mem_singleton.mp (Script.Stmt.only_declare.mp hs)
      refine ⟨List.forall_mem_cons.mpr ⟨fun _ he => (by cases he), hdeclared⟩, ?_⟩
      refine List.forall_mem_append.mpr ⟨?_, hparts'⟩
      cases initializer with
      | none => exact fun _ he => (by cases he)
      | some e =>
        refine List.forall_mem_singleton.mpr (List.forall_mem_append.mpr ⟨?_, hinitializer e rfl⟩)
        exact Script.Expr.only_ident name

/-- A loop has the sights of its body and its condition. -/
lemma gives_doWhileStmts {body : List Script.Stmt} {condition : Lowered}
    (hbody : ∀ s ∈ body, s.Only P) (hcondition : condition.Only P) :
    Gives (doWhileStmts body condition) fun out => ∀ s ∈ out, s.Only P := by
  have hblock : (Script.Stmt.block body).Only P := Script.only_stmts.mpr hbody
  unfold doWhileStmts
  split
  · exact .pure (List.forall_mem_singleton.mpr
      (List.forall_mem_append.mpr ⟨hblock, hcondition.2⟩))
  split
  · next declared parts hparts =>
    obtain ⟨hdeclared, hitems⟩ := only_commaParts hparts hcondition.1
    have hflush : ∀ s ∈ flush declared, s.Only P := by
      cases declared with
      | nil => exact fun _ hs => (by cases hs)
      | cons b rest => exact List.forall_mem_singleton.mpr (Script.Stmt.only_declare.mpr hdeclared)
    refine .pure (List.forall_mem_append.mpr ⟨hflush, List.forall_mem_singleton.mpr ?_⟩)
    refine List.forall_mem_append.mpr ⟨hblock, Script.only_exprs.mpr ?_⟩
    exact List.forall_mem_append.mpr ⟨hitems, List.forall_mem_singleton.mpr hcondition.2⟩
  · exact gives_bind fun _ => .pure fun _ hs => (by cases hs)

/-! ## Expressions and statements -/

/-- What is needed of a node so that `P` holds of what it is lowered to, if it holds of what its parts
are lowered to: where the node needs `this`, `P` holds of it; and from the body of a function `P` is
passed on to the function. -/
def Admits (c : Context) (P : Sight → Prop) : Source.Node → Prop
  | .expr (.assign _ _ target _) | .expr (.increment _ _ target) =>
    target.isThis c.program = true → P (.this [])
  | .expr (.lambda i id parameters body) =>
    ∀ important s head statements,
      (lowerExpr c (.lambda i id parameters body) important s).1 = lambdaValue c id head statements →
        (∀ t ∈ head.2 ++ statements, t.Only P) → (lambdaValue c id head statements).value.Only P
  | .expr e => e.isThis c.program = true → P (.this [])
  | .stmt _ => True

/-- Where a node needs `this`, `P` holds of `this`. -/
lemma Admits.this {e : Source.Expr} (h : Admits c P (.expr e))
    (hthis : e.needsThis c.program = true) : P (.this []) := by
  cases e with
  | lambda i id parameters body => cases hthis
  | _ => exact h hthis

/-- Every operation passes `P` on. -/
lemma kept_sights (c : Context) (hP : SurvivesBinding P) :
    (Invariant.sights P).Kept c (Admits c P) where
  holds_mono h _ := h
  stmts_mono h _ := h
  bound_mono h _ := h
  composed _ w := Gives.tracks (fun _ => trivial) w
  newTemporary w _ _ := ⟨w, le_refl w, trivial, Script.Expr.only_ident _, fun _ hinitializer =>
    List.forall_mem_singleton.mpr (Script.Stmt.only_declare.mpr
      (List.forall_mem_singleton.mpr hinitializer))⟩
  typeReference id w := (gives_bind fun name => .pure (only_dottedName name)).tracks w
  readVariable id w := (gives_readVariable id).tracks w
  passReference w _ _ _ := (gives_passReference _).tracks w
  captures h := .inl h
  this hadmits hthis _ := List.forall_mem_singleton.mpr (hadmits.this hthis)
  lambda hadmits hvalue hhead hstatements := hadmits _ _ _ _ hvalue
    (List.forall_mem_append.mpr ⟨fun s hs => (hhead s hs).only, hstatements⟩)
  passes h := h
  literal {_ e} h := by
    cases e <;> first | exact Script.only_of_sights_eq_nil rfl | cases h
  member h := h
  index h hkey := List.forall_mem_append.mpr ⟨h, hkey⟩
  call h harguments := Script.Expr.only_call hP h harguments
  new h harguments := List.forall_mem_append.mpr ⟨h, Script.only_exprs.mpr harguments⟩
  array h := Script.only_exprs.mpr h
  binary hleft hright := List.forall_mem_append.mpr ⟨hleft, hright⟩
  unary h := h
  update h := h
  assign htarget hvalue := List.forall_mem_append.mpr ⟨htarget, hvalue⟩
  conditional h htrue hfalse :=
    List.forall_mem_append.mpr ⟨h, List.forall_mem_append.mpr ⟨htrue, hfalse⟩⟩
  nil _ hs := by cases hs
  append h h' := List.forall_mem_append.mpr ⟨h, h'⟩
  emitted h := h
  expr h := List.forall_mem_singleton.mpr h
  block h := List.forall_mem_singleton.mpr (Script.only_stmts.mpr h)
  branch h hs ho := List.forall_mem_singleton.mpr (Script.Stmt.only_branch.mpr
    ⟨h, hs _ List.mem_cons_self, fun t ht => ho t ht t List.mem_cons_self⟩)
  bare {_ s} h := by
    cases s <;> first
      | exact List.forall_mem_singleton.mpr (Script.only_of_stmtSights_eq_nil rfl)
      | cases h
  whileLoop h hs := List.forall_mem_singleton.mpr
    (List.forall_mem_append.mpr ⟨h, hs _ List.mem_cons_self⟩)
  doWhile hbody hcondition :=
    (gives_doWhileStmts hbody ⟨hcondition.before, hcondition.value⟩).tracks _
  returns h := List.forall_mem_singleton.mpr (Script.Stmt.only_return.mpr h)
  throw h := List.forall_mem_singleton.mpr h
  declare h := List.forall_mem_singleton.mpr (Script.Stmt.only_declare.mpr h)
  bound_nil _ hb := by cases hb
  bound_append h h' := List.forall_mem_append.mpr ⟨h, h'⟩
  bindingOf _ h := List.forall_mem_singleton.mpr (only_bindingOf h)

/-- What every node inside a tree admits holds of everything that the tree is lowered to. -/
theorem only_lower (hP : SurvivesBinding P) :
    (∀ e, (∀ n, Source.Contains (.expr e) n → Admits c P n) →
      ∀ important, Gives (lowerExpr c e important) (·.Only P)) ∧
    ∀ t, (∀ n, Source.Contains (.stmt t) n → Admits c P n) →
      ∀ spliced, Gives (lowerStmt c t spliced) fun out => ∀ u ∈ out, u.Only P := by
  obtain ⟨hexpr, hstmt⟩ := (kept_sights c hP).lowering
  constructor
  · intro e hadmits important s
    obtain ⟨_, -, -, hsound⟩ := hexpr e hadmits important .now s trivial
    exact ⟨hsound.before, hsound.value⟩
  · intro t hadmits spliced s
    obtain ⟨_, -, -, hemitted⟩ := hstmt t hadmits spliced .now s trivial
    exact hemitted

end ScriptCompiler.Lowering
