import ScriptCompiler.Proofs.Contents.Operations

/-!
# Nothing is lost without a report, and nothing is written twice but functions

If lowering reports nothing, the script holds the marks that the body leaves, each at least as
often, and exactly the images that become of the body (`holds_lowering`).  The proof goes along the
tree: each construct keeps what its parts hold and adds its own, and a construct that cannot do so
reports.  Of each value it is known what is left of it in case it is used twice (`Settles`).
-/

namespace ScriptCompiler.Lowering

open Script (Image exprsMarks stmtsMarks bindingsMarks optionalMarks elseMarks stmtsMarks_append
  exprsImages stmtsImages bindingsImages optionalImages elseImages stmtsImages_append)
open Source (Node Argument Contains)

attribute [grind =] stmtOwn own Source.Stmt.expressions Source.Stmt.statements Node.parts
  Node.usesParts Source.Expr.inTurn Argument.value ownImages nodeCopies Context.copiedBy
  lambdaImages bindThis

/-! ## Constructs -/

section

variable (c : Context) (fields : String → Bool) (m : Mark) (p : Image → Bool)

/-- A lazy operator keeps both operands, whether it becomes a branch or not. -/
lemma holds_shortCircuit {op : Source.BinaryOp} (hop : op.isShortCircuit = true)
    (left right : Lowered) :
    Emits (shortCircuit c op left right) fun l =>
      Holds m p ([.ofOperator (binaryOp op)] ++ (left.marks ++ right.marks))
          (left.images fields ++ right.images fields) l.marks (l.images fields) ∧
        l.value.stableImages fields = [] ∧ l.value.IsValue fields := by
  have hchoice : Mark.ofOperator (binaryOp op) = .choice := by
    cases op <;> first | rfl | cases hop
  unfold shortCircuit
  split
  · rename_i hempty
    rw [List.isEmpty_iff] at hempty
    refine .pure ⟨?_, rfl, trivial⟩
    grind
  · refine (emits_newTemporary c).bind fun temporary => .pure fun _ => ⟨?_, rfl, trivial⟩
    have htest : (continuesOn op (.ident temporary)).images fields = [] := by cases op <;> rfl
    rw [hchoice]
    simp only [Holds, Lowered.marks, Lowered.images, Script.Stmt.var, Script.Expr.set, stmtsMarks,
      stmtsMarks_append, Script.Stmt.marks, bindingsMarks, optionalMarks, elseMarks,
      Script.Expr.marks, stmtsImages, stmtsImages_append, Script.Stmt.images, bindingsImages,
      optionalImages, elseImages, htest, Script.Expr.images, List.count_append, List.count_nil,
      List.countP_append, List.countP_nil]
    omega

/-- A choice keeps its condition and both values. -/
lemma holds_choose (condition whenTrue whenFalse : Lowered) :
    Emits (choose c condition whenTrue whenFalse) fun l =>
      Holds m p ([.choice] ++ (condition.marks ++ (whenTrue.marks ++ whenFalse.marks)))
          (condition.images fields ++ (whenTrue.images fields ++ whenFalse.images fields))
          l.marks (l.images fields) ∧
        l.value.stableImages fields = [] ∧ l.value.IsValue fields := by
  unfold choose
  split
  · rename_i hempty
    simp only [Bool.and_eq_true, List.isEmpty_iff] at hempty
    refine .pure ⟨?_, rfl, trivial⟩
    grind
  · refine (emits_newTemporary c).bind fun temporary => .pure fun _ => ⟨?_, rfl, trivial⟩
    simp only [Holds, Lowered.marks, Lowered.images, Script.Stmt.var, Script.Expr.set, stmtsMarks,
      stmtsMarks_append, Script.Stmt.marks, bindingsMarks, optionalMarks, elseMarks,
      Script.Expr.marks, stmtsImages, stmtsImages_append, Script.Stmt.images, bindingsImages,
      optionalImages, elseImages, Script.Expr.images, List.count_append, List.count_nil,
      List.countP_append, List.countP_nil]
    omega

/-- The parameters of a function keep their names, and putting them into containers writes no
image. -/
lemma emits_lambdaParameters (parameters : List VariableId) :
    Emits (lambdaParameters c parameters) fun head =>
      head.1.map Mark.name = parameters.flatMap c.nameMarks ∧
        head.1 = parameters.map c.variableName ∧ stmtsImages fields head.2 = [] := by
  induction parameters with
  | nil => exact .pure ⟨rfl, rfl, rfl⟩
  | cons id rest ih =>
    unfold lambdaParameters
    cases hv : c.scope.get? id with
    | none =>
      refine .of_report (emits_report _ _ _) fun _ => ?_
      exact ih.bind fun _ => .pure fun _ => trivial
    | some v =>
      refine ih.bind fun head => .pure fun hhead => ⟨?_, ?_, ?_⟩
      · rw [List.map_cons, hhead.1, List.flatMap_cons, Context.nameMarks, hv]
        rfl
      · rw [List.map_cons, ← hhead.2.1, Context.variableName, hv]
        rfl
      · rw [stmtsImages_append, hhead.2.2, List.append_nil]
        split <;> rfl

lemma emits_lambdaHead (id : LambdaId) (parameters : List VariableId) :
    Emits (lambdaHead c id parameters) fun head =>
      head.1.map Mark.name = parameters.flatMap c.nameMarks ∧
        head.1 = parameters.map c.variableName ∧ stmtsImages fields head.2 = [] := by
  unfold lambdaHead
  cases c.lambdas.get? id with
  | some entry => exact emits_lambdaParameters c fields parameters
  | none =>
    exact .of_report (emits_report _ _ _) fun _ =>
      (emits_lambdaParameters c fields parameters).mono fun _ _ => trivial

variable {c}

/-- A function keeps its parameters and its body.  It is bound or may be copied. -/
lemma holds_lambdaValue (id : LambdaId) {parameters : List VariableId}
    {head : List String × List Script.Stmt} (hhead : head.1 = parameters.map c.variableName)
    (hentry : stmtsImages fields head.2 = []) (statements : List Script.Stmt) :
    Holds m p ([.function] ++ (head.1.map Mark.name ++ stmtsMarks statements))
        (lambdaImages c fields id parameters ++ stmtsImages fields statements)
        (lambdaValue c id head statements).marks
        ((lambdaValue c id head statements).images fields) ∧
      (lambdaValue c id head statements).value.stableImages fields =
          (if c.binds id then [] else (lambdaValue c id head statements).images fields) ∧
        (lambdaValue c id head statements).value.IsValue fields := by
  unfold lambdaValue lambdaImages Context.binds
  cases (c.lambdas.get? id).any (·.usesThis) with
  | true | false =>
    refine ⟨?_, rfl, trivial⟩
    grind

/-- Statements that become parts of a comma expression are kept. -/
lemma holds_commaParts {statements : List Script.Stmt} {declared : List Script.Binding}
    {parts : List Script.Expr} (h : commaParts? statements = some (declared, parts)) :
    Holds m p (stmtsMarks statements) (stmtsImages fields statements)
      (bindingsMarks declared ++ exprsMarks parts)
      (bindingsImages fields declared ++ exprsImages fields parts) := by
  induction statements generalizing declared parts with
  | nil =>
    cases h
    exact ⟨le_refl _, rfl⟩
  | cons s rest ih =>
    obtain ⟨declared', parts', hrest, hcases⟩ := commaParts?_cons h
    have hcount := ih hrest
    rcases hcases with ⟨e, rfl, rfl, rfl⟩ | ⟨name, initializer, rfl, rfl, rfl⟩
    · grind
    · cases initializer <;> grind

@[grind =]
lemma stmtsImages_flush (bindings : List Script.Binding) :
    stmtsImages fields (flush bindings) = bindingsImages fields bindings := by
  cases bindings with
  | nil => rfl
  | cons b rest => exact List.append_nil _

/-- A loop that tests behind its body keeps its condition and its body. -/
lemma holds_doWhileStmts (body : List Script.Stmt) (condition : Lowered) :
    Emits (doWhileStmts body condition) fun out =>
      Holds m p ([.doWhile] ++ ([.block] ++ (stmtsMarks body ++ condition.marks)))
        (stmtsImages fields body ++ condition.images fields) (stmtsMarks out)
        (stmtsImages fields out) := by
  unfold doWhileStmts
  split
  · rename_i hempty
    rw [List.isEmpty_iff] at hempty
    refine .pure ?_
    grind
  · cases hparts : commaParts? condition.before with
    | none => exact emits_reported _ _ _
    | some parts =>
      obtain ⟨declared, items⟩ := parts
      refine .pure ?_
      have hcount := holds_commaParts fields m p hparts
      grind

/-- A loop that tests in front of its body keeps its condition and its body. -/
lemma holds_whileStmt (condition : Lowered) (body : List Script.Stmt) :
    Holds m p ([.whileLoop] ++ ([.block] ++ (condition.marks ++ stmtsMarks body)))
      (condition.images fields ++ stmtsImages fields body) (whileStmt condition body).marks
      ((whileStmt condition body).images fields) := by
  unfold whileStmt
  split
  · rename_i hempty
    rw [List.isEmpty_iff] at hempty
    grind
  · grind

/-- A binding keeps its name and its initial value, also in a container. -/
lemma holds_bindingOf (v : Variable) (initializer : Option Script.Expr) :
    Holds m p ([.declared v.name] ++ optionalMarks initializer) (optionalImages fields initializer)
      (bindingsMarks [bindingOf c v initializer])
      (bindingsImages fields [bindingOf c v initializer]) := by
  unfold bindingOf
  split
  · cases initializer <;>
      grind [container, Script.Expr.marks, Script.Expr.images, Script.propertiesMarks,
        Script.propertiesImages]
  · grind

end

/-! ## Lists of parts -/

section

variable (c : Context) (fields : String → Bool) (m : Mark) (p : Image → Bool)

/-- The script of the expression holds what the expression leaves and what becomes of it. -/
def HoldsExpr (e : Source.Expr) (important : Bool) : Prop :=
  Emits (lowerExpr c e important) fun l =>
    Holds m p (leaves c (.expr e)) (written c fields important (.expr e)) l.marks
        (l.images fields) ∧
      (important = true → Settles c fields p e l.value)

/-- The statements hold what the statement leaves and what becomes of it.  A spliced block leaves
its statements only. -/
def HoldsStmt (t : Source.Stmt) (spliced : Bool) : Prop :=
  Emits (lowerStmt c t spliced) fun out =>
    Holds m p (leaves c (.stmt t)) (written c fields true (.stmt t))
      (stmtsMarks out ++ if spliced then [.block] else []) (stmtsImages fields out)

end

variable {c : Context} {fields : String → Bool} {m : Mark} {p : Image → Bool}

lemma holds_lowerOperand {a : Argument} (h : HoldsExpr c fields m p a.value true) :
    Emits (lowerOperand c a) fun l =>
      Holds m p (leaves c (.expr a.value)) (written c fields true (.expr a.value)) l.marks
          (l.images fields) ∧
        Settles c fields p a.value l.value := by
  unfold lowerOperand
  split
  · rw [map_eq_pure_bind]
    refine (holds_passReference fields m a.value).bind fun value => .pure fun hvalue => ?_
    obtain ⟨⟨hmarks, himages, hplain⟩, hwritten, hyields⟩ := hvalue
    refine ⟨?_, .of_stableImages p hyields (stableImages_of_images himages) hplain⟩
    rw [hwritten]
    grind
  · exact .mono h fun l hl => ⟨hl.1, hl.2 rfl⟩

lemma holds_lowerArguments {arguments : List Argument}
    (h : ∀ a ∈ arguments, HoldsExpr c fields m p a.value true) (operands : Operands) :
    Emits (lowerArguments c arguments operands) fun o =>
      Holds m p (operands.marks ++ arguments.flatMap fun a => leaves c (.expr a.value))
          (operands.images fields ++
            arguments.flatMap fun a => written c fields true (.expr a.value))
          o.marks (o.images fields) ∧
        ∀ {es : List Source.Expr}, AllSettle c fields p es operands.values →
          AllSettle c fields p (es ++ arguments.map Argument.value) o.values := by
  induction arguments generalizing operands with
  | nil =>
    unfold lowerArguments
    refine .pure ⟨by grind, fun {es} hes => ?_⟩
    rw [List.map_nil, List.append_nil]
    exact hes
  | cons a rest ih =>
    have hrest := ih fun b hb => h b (List.mem_cons_of_mem _ hb)
    have hadded : Emits (lowerOperand c a >>= operands.add c) fun o =>
        Holds m p (operands.marks ++ leaves c (.expr a.value))
            (operands.images fields ++ written c fields true (.expr a.value))
            o.marks (o.images fields) ∧
          ∀ {es : List Source.Expr}, AllSettle c fields p es operands.values →
            AllSettle c fields p (es ++ [a.value]) o.values := by
      refine (holds_lowerOperand (h a List.mem_cons_self)).bind fun operand =>
        (holds_add c fields m p operands operand).mono fun o ho hoperand => ⟨?_, fun hes => ?_⟩
      · grind
      · exact ho.2 hes hoperand.2
    rw [lowerArguments_cons]
    refine hadded.bind fun added => (hrest added).mono fun o ho hadd => ⟨?_, fun {es} hes => ?_⟩
    · grind
    · have hall := ho.2 (hadd.2 hes)
      rw [List.append_assoc] at hall
      exact hall

lemma holds_lowerStmts {body : List Source.Stmt}
    (h : ∀ t ∈ body, HoldsStmt c fields m p t false) :
    Emits (lowerStmts c body) fun out =>
      Holds m p (body.flatMap fun t => leaves c (.stmt t))
        (body.flatMap fun t => written c fields true (.stmt t)) (stmtsMarks out)
        (stmtsImages fields out) := by
  induction body with
  | nil =>
    unfold lowerStmts
    exact .pure ⟨le_refl _, rfl⟩
  | cons t rest ih =>
    unfold lowerStmts
    refine .bind (h t List.mem_cons_self) fun first =>
      (ih fun u hu => h u (List.mem_cons_of_mem _ hu)).bind fun others =>
        .pure fun hothers hfirst => ?_
    grind

lemma holds_lowerInitializer {initializer : Option Source.Expr}
    (h : ∀ e ∈ initializer, HoldsExpr c fields m p e true) :
    Emits (lowerInitializer c initializer) fun value =>
      Holds m p (initializer.toList.flatMap fun e => leaves c (.expr e))
        (initializer.toList.flatMap fun e => written c fields true (.expr e))
        (stmtsMarks (value.elim [] (·.before)) ++ optionalMarks (value.map (·.value)))
        (stmtsImages fields (value.elim [] (·.before)) ++
          optionalImages fields (value.map (·.value))) := by
  unfold lowerInitializer
  cases initializer with
  | none => exact .pure ⟨le_refl _, rfl⟩
  | some e =>
    refine .bind (h e rfl) fun value => .pure fun hvalue => ?_
    rw [Option.toList_some, List.flatMap_singleton, List.flatMap_singleton]
    exact hvalue.1

lemma holds_lowerDeclarator {d : Source.Declarator}
    (h : ∀ e ∈ d.initializer, HoldsExpr c fields m p e true) :
    Emits (lowerDeclarator c d) fun r => ∃ v value, r = some (v, value) ∧
      declaredMarks c d = [.declared v.name] ∧
        Holds m p (d.initializer.toList.flatMap fun e => leaves c (.expr e))
          (d.initializer.toList.flatMap fun e => written c fields true (.expr e))
          (stmtsMarks (value.elim [] (·.before)) ++ optionalMarks (value.map (·.value)))
          (stmtsImages fields (value.elim [] (·.before)) ++
            optionalImages fields (value.map (·.value))) := by
  obtain ⟨id, name, initializer, span⟩ := d
  unfold lowerDeclarator
  refine (emits_setLocation _).bind fun _ => ?_
  cases hv : c.scope.get? id with
  | none => exact emits_reported _ _ _
  | some v =>
    refine (holds_lowerInitializer h).bind fun value => .pure fun hvalue _ =>
      ⟨v, value, rfl, ?_, hvalue⟩
    simp [declaredMarks, Source.Declarator.id, hv]

lemma flatMap_initializers {α : Type} (f : Source.Expr → List α) (d : Source.Declarator)
    (rest : List Source.Declarator) :
    ((d :: rest).filterMap Source.Declarator.initializer).flatMap f =
      d.initializer.toList.flatMap f ++
        (rest.filterMap Source.Declarator.initializer).flatMap f := by
  cases hd : d.initializer <;> simp [hd]

lemma holds_lowerDeclarators {declarators : List Source.Declarator}
    (h : ∀ e ∈ declarators.filterMap Source.Declarator.initializer, HoldsExpr c fields m p e true)
    (batch : List Script.Binding) :
    Emits (lowerDeclarators c declarators batch) fun out =>
      Holds m p (bindingsMarks batch ++ (declarators.flatMap (declaredMarks c) ++
          (declarators.filterMap Source.Declarator.initializer).flatMap
            fun e => leaves c (.expr e)))
        (bindingsImages fields batch ++
          (declarators.filterMap Source.Declarator.initializer).flatMap
            fun e => written c fields true (.expr e))
        (stmtsMarks out) (stmtsImages fields out) := by
  induction declarators generalizing batch with
  | nil =>
    unfold lowerDeclarators
    refine .pure ?_
    grind
  | cons d rest ih =>
    obtain ⟨hfirst, hothers⟩ := Source.forall_initializers_cons.mp h
    have hrest := ih hothers
    rw [lowerDeclarators_cons, flatMap_initializers, flatMap_initializers]
    refine (holds_lowerDeclarator hfirst).bind fun r => ?_
    split
    · exact (hrest batch).mono fun _ _ hnone => by
        obtain ⟨v, value, heq, -⟩ := hnone
        cases heq
    · rename_i v value
      have hbinding := holds_bindingOf (c := c) fields m p v (value.map (·.value))
      dsimp only
      split
      · rename_i hbefore
        refine (hrest _).mono fun out hout hsome => ?_
        obtain ⟨v', value', heq, hdeclared, hcount⟩ := hsome
        cases heq
        rw [hbefore] at hcount
        grind
      · refine (hrest _).bind fun out => .pure fun hout hsome => ?_
        obtain ⟨v', value', heq, hdeclared, hcount⟩ := hsome
        cases heq
        grind

/-! ## Expressions and statements -/

lemma count_leaves_strict {e : Source.Expr} (h : e.isStrict = true) :
    (leaves c (.expr e)).count m =
      (exprOwn c e ++ e.inTurn.flatMap fun a => leaves c (.expr a.value)).count m := by
  rw [leaves_eq, Source.parts_strict h, List.flatMap_map]
  rfl

lemma countP_written_strict {e : Source.Expr} (h : e.isStrict = true) (important : Bool) :
    (written c fields important (.expr e)).countP p = (exprImages c fields e).countP p +
      (functionsWritten c fields (c.copiedBy important e)).countP p +
        (e.inTurn.flatMap fun a => written c fields true (.expr a.value)).countP p := by
  have huses : (Node.expr e).usesParts = true := by
    cases e with
    | lambda => cases h
    | _ => rfl
  rw [countP_written, Source.parts_strict h, List.flatMap_map, huses]
  rfl

lemma count_leaves_stmt (t : Source.Stmt) :
    (leaves c (.stmt t)).count m = (stmtOwn c t ++
      ((t.expressions.flatMap fun e => leaves c (.expr e)) ++
        t.statements.flatMap fun u => leaves c (.stmt u))).count m := by
  rw [leaves_eq, Node.parts, List.flatMap_append, List.flatMap_map, List.flatMap_map]
  rfl

lemma countP_written_stmt (t : Source.Stmt) :
    (written c fields true (.stmt t)).countP p =
      (t.expressions.flatMap fun e =>
          written c fields (Node.stmt t).usesParts (.expr e)).countP p +
        (t.statements.flatMap fun u => written c fields true (.stmt u)).countP p := by
  have hstatements : ∀ u ∈ t.statements, (Node.stmt t).usesParts = true := by
    cases t with
    | expr => exact fun u hu => (by cases hu)
    | _ => exact fun _ _ => rfl
  have hparts : t.statements.flatMap (fun u => written c fields (Node.stmt t).usesParts (.stmt u)) =
      t.statements.flatMap fun u => written c fields true (.stmt u) :=
    List.flatMap_congr fun u hu => by rw [hstatements u hu]
  rw [countP_written, Node.parts, List.flatMap_append, List.flatMap_map, List.flatMap_map, hparts,
    List.countP_append]
  simp only [ownImages, nodeCopies, functionsWritten, List.flatMap_nil, List.countP_nil,
    Nat.zero_add]

lemma holds_lambda (i : Source.Info) (id : LambdaId) (parameters : List VariableId)
    {body : Source.LambdaBody}
    (h : Emits (lowerLambdaBody c body) fun out =>
      Holds m p ((Node.expr (.lambda i id parameters body)).parts.flatMap (leaves c))
        ((Node.expr (.lambda i id parameters body)).parts.flatMap
          (written c fields (Node.expr (.lambda i id parameters body)).usesParts))
        (stmtsMarks out) (stmtsImages fields out))
    (important : Bool) : HoldsExpr c fields m p (.lambda i id parameters body) important := by
  unfold HoldsExpr
  rw [lowerExpr_lambda]
  have hlocation : Emits currentLocation fun _ => True :=
    fun _ => ⟨[], (List.append_nil _).symm, fun _ => trivial⟩
  refine (emits_lambdaHead c fields id parameters).bind fun head =>
    hlocation.bind fun location => h.bind fun out => (emits_setLocation _).bind fun _ =>
      .pure fun _ hout _ hhead => ?_
  obtain ⟨hcount, hstable, hvalue⟩ := holds_lambdaValue fields m p id hhead.2.1 hhead.2.2 out
  have hwritten : ∀ important, ((lambdaValue c id head out).images fields).countP p =
      (written c fields important (.expr (.lambda i id parameters body))).countP p := by
    intro important
    rw [countP_written, hcount.2, List.countP_append, hout.2]
    rfl
  have hleaves : (leaves c (.expr (.lambda i id parameters body))).count m ≤
      (lambdaValue c id head out).marks.count m := by
    rw [leaves_eq]
    grind
  refine ⟨⟨hleaves, hwritten important⟩, fun _ => ⟨?_, hvalue⟩⟩
  rw [hstable, Context.yields]
  split
  · rfl
  · rw [hwritten true, Option.toList_some, functionsWritten, List.flatMap_cons, List.flatMap_nil,
      List.append_nil]

lemma holds_lowerStmt_of_parts {t : Source.Stmt}
    (hexpr : ∀ e ∈ t.expressions, ∀ important, HoldsExpr c fields m p e important)
    (hstmt : ∀ u ∈ t.statements, ∀ spliced, HoldsStmt c fields m p u spliced) (spliced : Bool) :
    HoldsStmt c fields m p t spliced := by
  have hbody : ∀ body : List Source.Stmt, body = t.statements →
      Emits (lowerStmts c body) fun out =>
        Holds m p (body.flatMap fun u => leaves c (.stmt u))
          (body.flatMap fun u => written c fields true (.stmt u)) (stmtsMarks out)
          (stmtsImages fields out) := by
    rintro body rfl
    exact holds_lowerStmts fun u hu => hstmt u hu false
  unfold HoldsStmt Holds
  rw [count_leaves_stmt, countP_written_stmt]
  cases t
  all_goals unfold lowerStmt
  case comment span kind content =>
    refine .located (.pure ?_)
    have hcomment : stmtOwn c (.comment span kind content) =
          stmtsMarks (commentStmts c kind content) ∧
        stmtsImages fields (commentStmts c kind content) = [] := by
      cases kind with
      | multiLine =>
        simp only [stmtOwn, commentMarks, commentStmts]
        cases reformatComment content c.options.lineSeparator.text <;> exact ⟨rfl, rfl⟩
      | _ => exact ⟨rfl, rfl⟩
    grind
  case declare span declarators =>
    refine .located ((holds_lowerDeclarators (fun e he => hexpr e he true) []).mono
      fun out hout => ?_)
    grind
  case expr span value =>
    refine .located (.bind (hexpr value List.mem_cons_self _) fun l => .pure fun hl => ?_)
    have hcount := hl.1
    grind
  case block span body =>
    cases spliced with
    | true =>
      refine (hbody body rfl).mono fun out hout => ?_
      grind
    | false =>
      refine .located ((hbody body rfl).bind fun out => .pure fun hout => ?_)
      grind
  case checked span body | unchecked span body =>
    refine .located ((hbody body rfl).bind fun out => .pure fun hout => ?_)
    grind
  case «return» span value =>
    cases value with
    | none =>
      refine .located (.pure ?_)
      grind
    | some value =>
      refine .located (.bind (hexpr value List.mem_cons_self _) fun l => .pure fun hl => ?_)
      have hcount := hl.1
      grind
  case branch span condition thenBranch elseBranch =>
    have helse : Emits (lowerElse c elseBranch) fun out =>
        Holds m p (elseBranch.toList.flatMap fun u => leaves c (.stmt u))
          (elseBranch.toList.flatMap fun u => written c fields true (.stmt u)) (elseMarks out)
          (elseImages fields out) := by
      unfold lowerElse
      cases elseBranch with
      | none => exact .pure ⟨le_refl _, rfl⟩
      | some branch =>
        refine .bind (hstmt branch (by simp [Source.Stmt.statements]) true) fun out =>
          .pure fun hout => ?_
        grind
    refine .located (.bind (hexpr condition List.mem_cons_self _)
      fun l => .bind (hstmt thenBranch List.mem_cons_self true) fun thenOut =>
        helse.bind fun elseOut => .pure fun helseOut hthen hl => ?_)
    have hcount := hl.1
    grind
  case whileLoop span condition body =>
    refine .located (.bind (hexpr condition List.mem_cons_self _)
      fun l => .bind (hstmt body List.mem_cons_self true) fun out =>
        .pure fun hout hl => ?_)
    have hcount := hl.1
    have hloop := holds_whileStmt fields m p l out
    grind
  case doWhile span body condition =>
    refine .located (.bind (hstmt body List.mem_cons_self true)
      fun out => .located (.bind (hexpr condition List.mem_cons_self _) fun l =>
        (holds_doWhileStmts fields m p out l).mono fun result hresult hl hout => ?_))
    have hcount := hl.1
    grind
  case «break» span | «continue» span | empty span =>
    refine .located (.pure ?_)
    grind
  case throw span value =>
    cases value with
    | none => exact .located (emits_reported _ _ _)
    | some value =>
      refine .located (.bind (hexpr value List.mem_cons_self _) fun l => .pure fun hl => ?_)
      have hcount := hl.1
      grind
  case unsupported span construct =>
    exact .located (emits_reported _ _ _)

/-- What an expression or a statement leaves is in its script, and what becomes of it is there
exactly, unless something is reported. -/
theorem holds_lowering (hfields : CoversFields c fields) (m : Mark) (p : Image → Bool) :
    (∀ e : Source.Expr, (∀ n, Contains (.expr e) n → NodeKeeps c n) →
      ∀ important, HoldsExpr c fields m p e important) ∧
    ∀ t : Source.Stmt, (∀ n, Contains (.stmt t) n → NodeKeeps c n) →
      ∀ spliced, HoldsStmt c fields m p t spliced := by
  refine Source.contained_induction ?_ ?_ ?_ ?_ ?_ ?_
  · intro e hstrict hkeeps hoperands important
    have harguments : ∀ a ∈ e.inTurn, HoldsExpr c fields m p a.value true :=
      fun a ha => (hoperands a ha).2 true
    unfold HoldsExpr Holds
    rw [lowerExpr_strict c hstrict, count_leaves_strict hstrict, countP_written_strict hstrict]
    refine (emits_announce e).bind fun _ => (holds_lowerArguments harguments {}).bind
      fun operands => ?_
    have hgrows := emits_of_composed c (composed_complete c hstrict important operands)
    by_cases hassignable : Assignable e
    · by_cases hsettle : AllSettle c fields p (e.inTurn.map Argument.value) operands.values
      · refine (holds_complete m p hfields hstrict hkeeps hassignable important hsettle).mono
          fun l hl hoperands _ => ⟨?_, hl.2⟩
        have hcount := hoperands.1
        have hown := hl.1
        grind
      · exact hgrows.mono fun _ _ hoperands => absurd (hoperands.2 .nil) hsettle
    · exact hgrows.mono fun _ _ _ habs => absurd habs hassignable
  · intro i op left right hop hleft hright important
    unfold HoldsExpr
    simp only [lowerExpr, hop, if_true]
    refine .bind (hleft true) fun leftValue => .bind (hright true) fun rightValue =>
      (holds_shortCircuit c fields m p hop leftValue rightValue).mono fun l hl hright hleft =>
        ⟨⟨?_, ?_⟩, fun _ => .of_stableImages p rfl hl.2.1 hl.2.2⟩
    · rw [leaves_eq]
      grind
    · rw [hl.1.2, countP_written]
      simp only [ownImages, exprImages, nodeCopies, Context.copiedBy, functionsWritten, Node.parts,
        Node.usesParts, Source.Expr.inTurn, Argument.value, List.map_cons, List.map_nil,
        List.flatMap_cons, List.flatMap_nil, List.append_nil, List.countP_append, List.countP_nil]
      omega
  · intro i condition whenTrue whenFalse hcondition htrue hfalse important
    unfold HoldsExpr lowerExpr
    refine .bind (hcondition true) fun conditionValue =>
      Emits.bind (htrue true) fun trueValue => .bind (hfalse true) fun falseValue =>
        (holds_choose c fields m p conditionValue trueValue falseValue).mono
          fun l hl hfalse htrue hcondition =>
            ⟨⟨?_, ?_⟩, fun _ => .of_stableImages p rfl hl.2.1 hl.2.2⟩
    · rw [leaves_eq]
      grind
    · rw [hl.1.2, countP_written]
      simp only [ownImages, exprImages, nodeCopies, Context.copiedBy, functionsWritten, Node.parts,
        Node.usesParts, List.flatMap_cons, List.flatMap_nil, List.append_nil, List.countP_append,
        List.countP_nil]
      omega
  · intro i id parameters value _ hvalue important
    refine holds_lambda i id parameters ?_ important
    unfold lowerLambdaBody
    refine .bind (hvalue _) fun l => .pure fun hl => ?_
    have hcount := hl.1
    simp only [Node.parts, Node.usesParts, List.flatMap_cons, List.flatMap_nil, List.append_nil]
    split <;> grind
  · intro i id parameters body _ hbody important
    refine holds_lambda i id parameters ?_ important
    unfold lowerLambdaBody
    refine (holds_lowerStmts fun t ht => hbody t ht false).mono fun out hout => ?_
    rw [Node.parts, List.flatMap_map, List.flatMap_map]
    exact hout
  · intro t _ hexpr hstmt
    exact holds_lowerStmt_of_parts hexpr hstmt

end ScriptCompiler.Lowering
