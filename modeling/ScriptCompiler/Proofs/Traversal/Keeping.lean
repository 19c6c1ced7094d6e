import ScriptCompiler.Proofs.Traversal.Invariants

/-!
# Kept invariants hold of all that is lowered

An invariant that is kept holds of everything that a tree of the source becomes, if all nodes of the
tree are admitted (`Invariant.Kept.lowering`).
-/

namespace ScriptCompiler.Lowering

namespace Invariant.Kept

variable {W : Type} [Preorder W] {c : Context} {I : Invariant W} {admits : Source.Node → Prop}
  (K : I.Kept c admits) {w : W}

include K

/-! ## Expressions from operands -/

lemma tracks_lowerArguments {arguments : List Source.Argument}
    (hpass : ∀ a ∈ arguments, a.mode.isReference = true → ∀ w,
      I.Tracks (Lowering.passReference c a.value) w fun e w' => I.Passes w' e)
    (hvalue : ∀ a ∈ arguments, ∀ w, I.Tracks (lowerExpr c a.value true) w fun l w' =>
      I.Sound w' false l)
    {kinds : List Bool} {operands : Operands} (h : I.SoundAll w kinds operands) :
    I.Tracks (lowerArguments c arguments operands) w fun r w' =>
      I.SoundAll w' (kinds ++ passed arguments) r := by
  induction arguments generalizing kinds operands w with
  | nil =>
    unfold lowerArguments
    exact .pure (by simpa [passed] using h)
  | cons a rest ih =>
    rw [lowerArguments_cons]
    have hoperand : I.Tracks (lowerOperand c a) w fun l w' =>
        I.Sound w' a.mode.isReference l := by
      unfold lowerOperand
      cases hmode : a.mode.isReference with
      | true =>
        rw [if_pos rfl, map_eq_pure_bind]
        exact (hpass a List.mem_cons_self hmode w).bind fun e w₁ _ he => .pure ⟨K.nil, he⟩
      | false =>
        rw [if_neg (by simp)]
        exact hvalue a List.mem_cons_self w
    have hadded : I.Tracks (lowerOperand c a >>= operands.add c) w fun r w' =>
        I.SoundAll w' (kinds ++ [a.mode.isReference]) r :=
      hoperand.bind fun operand w₁ hle ho =>
        K.tracks_add ⟨K.stmts_mono h.before hle, K.values_mono h.values hle⟩ ho
    refine hadded.bind fun added w₁ _ hadded => ?_
    have hrest := ih (fun b hb => hpass b (List.mem_cons_of_mem _ hb))
      (fun b hb => hvalue b (List.mem_cons_of_mem _ hb)) hadded
    simpa [passed] using hrest

lemma tracks_complete {e : Source.Expr} (hstrict : e.isStrict = true) (hadmits : admits (.expr e))
    (important : Bool) {operands : Operands} (h : I.SoundAll w (passed e.inTurn) operands) :
    I.Tracks (complete c e important operands) w fun l w' => I.Sound w' false l := by
  obtain ⟨hbefore, hvalues⟩ := h
  have hthis := K.this hadmits
  -- most expressions just read something behind the statements of the operands
  have hread : ∀ {step : Lower Script.Expr}, I.Tracks step w (fun e w' => I.Plain w' e) →
      I.Tracks (do return { operands with value := ← step }) w fun l w' => I.Sound w' false l :=
    fun hstep => hstep.bind fun value w₁ hle hvalue => .pure ⟨K.stmts_mono hbefore hle, hvalue⟩
  have hpure : ∀ {e : Script.Expr}, I.Plain w e →
      I.Tracks (pure { operands with value := e }) w fun l w' => I.Sound w' false l :=
    fun he => .pure ⟨hbefore, he⟩
  -- a change of a place has statements of its own
  have hstore : ∀ {step : Lower Lowered} {w₁}, w ≤ w₁ →
      I.Tracks step w₁ (fun l w' => I.Sound w' false l) →
      I.Tracks (do
        let stored ← step
        return { stored with before := operands.before ++ stored.before }) w₁ fun l w' =>
          I.Sound w' false l :=
    fun hle hstep => hstep.bind fun stored w₂ hle' hstored =>
      .pure ⟨K.append (K.stmts_mono hbefore (le_trans hle hle')) hstored.before, hstored.value⟩
  cases e with
  | constant i value => exact hpure (K.literal (by cases value <;> rfl))
  | localVar i id => exact hread (K.readVariable id w)
  | this i => exact hpure (hthis rfl w)
  | field i target id =>
    refine (K.tracks_placeReceiver hthis (plain_receiver List.prefix_rfl hvalues)).bind
      fun object w₁ hle hobject => ?_
    exact (K.composed (composed_fieldName c id) w₁).bind fun name w₂ hle' _ =>
      .pure ⟨K.stmts_mono hbefore (le_trans hle hle'), K.member (K.holds_mono hobject hle')⟩
  | property i target id =>
    refine (K.tracks_placeReceiver hthis (plain_receiver List.prefix_rfl hvalues)).bind
      fun object w₁ hle hobject => ?_
    exact (K.tracks_getProperty hobject (by simp) id).bind fun value w₂ hle' hvalue =>
      .pure ⟨K.stmts_mono hbefore (le_trans hle hle'), hvalue⟩
  | indexer i target id arguments =>
    exact hread (K.tracks_getProperty (holds_headD hvalues)
      (K.passes_of_values (values_tail hvalues)) id)
  | element i array index =>
    exact hpure (K.index (holds_headD hvalues) (K.passes (holds_headD (values_tail hvalues))))
  | call i target id arguments =>
    have hkinds : passed (target.map (.mk .value)).toList <+:
        passed (Source.Expr.call i target id arguments).inTurn := by
      rw [passed, passed, Source.Expr.inTurn, List.map_append]
      exact List.prefix_append _ _
    refine (K.tracks_placeReceiver hthis (plain_receiver hkinds hvalues)).bind
      fun object w₁ hle hobject => ?_
    refine (K.composed (composed_methodName c id) w₁).bind fun name w₂ hle' _ => .pure ⟨?_, ?_⟩
    · exact K.stmts_mono hbefore (le_trans hle hle')
    · refine K.call (K.member (K.holds_mono hobject hle')) fun a ha => ?_
      have hmem : a ∈ operands.values := by
        split at ha
        · exact List.mem_of_mem_tail ha
        · exact ha
      exact K.holds_mono (K.passes_of_values hvalues a hmem) (le_trans hle hle')
  | delegateCall i target arguments =>
    exact hpure (K.call (holds_headD hvalues) (K.passes_of_values (values_tail hvalues)))
  | create i id arguments => exact hread (K.tracks_createObject (K.passes_of_values hvalues) id)
  | createArray i elements =>
    refine hpure (K.array (plain_of_values (fun kind hkind => ?_) hvalues))
    simp only [passed, Source.Expr.inTurn, List.map_map, List.mem_map] at hkind
    obtain ⟨e, _, rfl⟩ := hkind
    rfl
  | binary i op left right =>
    exact hpure (K.plain_combine (holds_headD hvalues) (holds_headD (values_tail hvalues)) op _)
  | unary i op operand => exact hpure (K.unary (holds_headD hvalues))
  | assign i op target value =>
    have hkinds : passed (Source.Expr.assign i op target value).inTurn =
        passed target.operands ++ [false] := by
      rw [passed, Source.Expr.inTurn, List.map_append]
      rfl
    obtain ⟨htarget, hlast⟩ := values_concat (hkinds ▸ hvalues)
    refine (K.tracks_placeOf hthis htarget).bind fun place w₁ hle hplace => ?_
    exact hstore hle
      (K.tracks_assignPlace hplace (K.holds_mono hlast hle) op target value important)
  | increment i kind target =>
    refine (K.tracks_placeOf hthis hvalues).bind fun place w₁ hle hplace => ?_
    exact hstore hle (K.tracks_incrementPlace hplace kind important)
  | conditional => cases hstrict
  | lambda => cases hstrict

/-! ## Functions -/

/-- A function, given its body. -/
lemma tracks_lambda {i : Source.Info} {id : LambdaId} {parameters : List VariableId}
    {body : Source.LambdaBody} (hadmits : admits (.expr (.lambda i id parameters body)))
    (h : ∀ w, I.Tracks (lowerLambdaBody c body) w fun out w' => I.Emitted w' out)
    (important : Bool) :
    I.Tracks (lowerExpr c (.lambda i id parameters body) important) w fun l w' =>
      I.Sound w' false l := by
  have hparts : I.Tracks (lowerExpr c (.lambda i id parameters body) important) w fun l w' =>
      ∃ head statements, l = lambdaValue c id head statements ∧
        (∀ s ∈ head.2, Wraps c head.1 s) ∧ I.Emitted w' statements := by
    rw [lowerExpr_lambda]
    have hhead := (K.composed (composed_lambdaHead c id parameters) w).gives
      (gives_lambdaHead id parameters)
    refine hhead.bind fun head w₁ _ hhead => ?_
    refine (K.composed composed_currentLocation w₁).bind fun location w₂ _ _ => ?_
    refine (h w₂).bind fun statements w₃ _ hstatements => ?_
    refine (K.composed (composed_setLocation location) w₃).bind fun _ w₄ hle _ => .pure ?_
    exact ⟨head, statements, rfl, hhead, K.stmts_mono hstatements hle⟩
  intro s hs
  obtain ⟨w', hle, hs', head, statements, hvalue, hhead, hstatements⟩ := hparts s hs
  refine ⟨w', hle, hs', ?_⟩
  rw [hvalue]
  exact ⟨K.nil, K.lambda hadmits hvalue hhead hstatements⟩

/-! ## Statements -/

lemma tracks_lowerStmts {statements : List Source.Stmt}
    (h : ∀ s ∈ statements, ∀ w, I.Tracks (lowerStmt c s false) w fun out w' => I.Emitted w' out)
    (w : W) : I.Tracks (lowerStmts c statements) w fun out w' => I.Emitted w' out := by
  induction statements generalizing w with
  | nil =>
    unfold lowerStmts
    exact .pure K.nil
  | cons s rest ih =>
    unfold lowerStmts
    refine (h s List.mem_cons_self w).bind fun first w₁ _ hfirst => ?_
    refine (ih (fun t ht => h t (List.mem_cons_of_mem _ ht)) w₁).bind fun others w₂ hle hothers => ?_
    exact .pure (K.append (K.stmts_mono hfirst hle) hothers)

lemma emitted_flush {bindings : List Script.Binding} (h : I.Bound w bindings) :
    I.Emitted w (flush bindings) := by
  cases bindings with
  | nil => exact K.nil
  | cons b rest => exact K.declare h

lemma tracks_lowerDeclarators {declarators : List Source.Declarator}
    (h : ∀ e ∈ declarators.filterMap Source.Declarator.initializer, ∀ w,
      I.Tracks (lowerExpr c e true) w fun l w' => I.Sound w' false l)
    {batch : List Script.Binding} (hbatch : I.Bound w batch) :
    I.Tracks (lowerDeclarators c declarators batch) w fun out w' => I.Emitted w' out := by
  induction declarators generalizing batch w with
  | nil =>
    unfold lowerDeclarators
    exact .pure (K.emitted_flush hbatch)
  | cons d rest ih =>
    obtain ⟨id, name, initializer, span⟩ := d
    obtain ⟨hfirst, hothers⟩ := Source.forall_initializers_cons.mp h
    have hrest : ∀ {w batch}, I.Bound w batch →
        I.Tracks (lowerDeclarators c rest batch) w fun out w' => I.Emitted w' out := ih hothers
    have hvalue : ∀ w, I.Tracks (lowerInitializer c initializer) w fun value w' =>
        ∀ l, value = some l → I.Sound w' false l := by
      intro w
      unfold lowerInitializer
      cases initializer with
      | none => exact .pure (by simp)
      | some e =>
        refine (hfirst e rfl w).bind fun l w₁ _ hl => .pure ?_
        intro l' heq
        obtain rfl := Option.some.inj heq
        exact hl
    unfold lowerDeclarators
    refine (K.composed (composed_setLocation _) w).bind fun _ w₁ hle₁ _ => ?_
    cases hv : c.scope.get? id with
    | none =>
      exact (K.composed (composed_internalError _) w₁).bind fun _ w₂ hle₂ _ =>
        hrest (K.bound_mono hbatch (le_trans hle₁ hle₂))
    | some v =>
      refine (hvalue w₁).bind fun value w₂ hle₂ hvalue => ?_
      have hbatch := K.bound_mono hbatch (le_trans hle₁ hle₂)
      have hbinding : I.Bound w₂ [Lowering.bindingOf c v (value.map (·.value))] := by
        refine K.bindingOf hv fun e he => ?_
        obtain ⟨l, rfl, rfl⟩ := Option.map_eq_some_iff.mp he
        exact (hvalue l rfl).value
      have hhoisted : I.Hoisted w₂ (value.elim [] (·.before)) := by
        cases value with
        | none => exact K.nil
        | some l => exact (hvalue l rfl).before
      dsimp only
      split
      · exact hrest (K.bound_append hbatch hbinding)
      · refine (hrest hbinding).bind fun others w₃ hle₃ hothers => .pure (K.append ?_ hothers)
        have hfront := K.append (K.emitted_flush hbatch) (K.emitted hhoisted)
        exact K.stmts_mono hfront hle₃

/-- A statement that ends with the value of an expression. -/
lemma emitted_ending {l : Lowered} {last : Script.Stmt} (h : I.Hoisted w l.before)
    (hlast : I.Emitted w [last]) : I.Emitted w (l.before ++ [last]) :=
  K.append (K.emitted h) hlast

lemma emitted_whileStmt {condition : Lowered} {body : List Script.Stmt}
    (hcondition : I.Sound w false condition) (hbody : I.Emitted w body) :
    I.Emitted w [whileStmt condition body] := by
  unfold whileStmt
  split
  · exact K.whileLoop hcondition.value (K.block hbody)
  · have hexit : I.Emitted w [.branch (.unary .not condition.value) .break none] :=
      K.branch (K.unary hcondition.value) (K.bare rfl) fun _ hnone => by cases hnone
    exact K.whileLoop (K.literal rfl)
      (K.block (K.append (K.emitted_ending hcondition.before hexit) hbody))

lemma emitted_commentStmts (kind : CommentKind) (content : String) :
    I.Emitted w (commentStmts c kind content) := by
  unfold commentStmts
  split
  · exact K.bare rfl
  · split
    · exact K.bare rfl
    · exact K.nil
  all_goals exact K.nil

/-- A statement, given its parts. -/
lemma tracks_lowerStmt_of_parts {s : Source.Stmt}
    (hexpr : ∀ e ∈ s.expressions, ∀ important w,
      I.Tracks (lowerExpr c e important) w fun l w' => I.Sound w' false l)
    (hstmt : ∀ t ∈ s.statements, ∀ spliced w,
      I.Tracks (lowerStmt c t spliced) w fun out w' => I.Emitted w' out)
    (spliced : Bool) (w : W) :
    I.Tracks (lowerStmt c s spliced) w fun out w' => I.Emitted w' out := by
  have hlocated : ∀ {span : Span} {next : Lower (List Script.Stmt)},
      (∀ w, I.Tracks next w fun out w' => I.Emitted w' out) →
      I.Tracks (do setLocation (c.location span); next) w fun out w' => I.Emitted w' out :=
    fun hnext => (K.composed (composed_setLocation _) w).bind fun _ w₁ _ _ => hnext w₁
  have hbody : ∀ (body : List Source.Stmt), body = s.statements → ∀ w,
      I.Tracks (lowerStmts c body) w fun out w' => I.Emitted w' out := by
    rintro body rfl w
    exact K.tracks_lowerStmts (fun t ht => hstmt t ht false) w
  have hblock : ∀ (body : List Source.Stmt), body = s.statements → ∀ w,
      I.Tracks (do return [.block (← lowerStmts c body)]) w fun out w' => I.Emitted w' out :=
    fun body hs w => (hbody body hs w).bind fun out w₁ _ hout => .pure (K.block hout)
  cases s with
  | comment span kind content =>
    unfold lowerStmt
    exact hlocated fun w => .pure (K.emitted_commentStmts kind content)
  | declare span declarators =>
    unfold lowerStmt
    exact hlocated fun w => K.tracks_lowerDeclarators (fun e he => hexpr e he true) K.bound_nil
  | expr span value =>
    unfold lowerStmt
    exact hlocated fun w => (hexpr value List.mem_cons_self false w).bind fun l w₁ _ hl =>
      .pure (K.emitted_ending hl.before (K.expr hl.value))
  | block span body =>
    unfold lowerStmt
    split
    · exact hbody body rfl w
    · exact hlocated (hblock body rfl)
  | checked span body | unchecked span body =>
    unfold lowerStmt
    exact hlocated (hblock body rfl)
  | «return» span value =>
    cases value with
    | none =>
      unfold lowerStmt
      exact hlocated fun w => .pure (K.returns fun _ hnone => by cases hnone)
    | some value =>
      unfold lowerStmt
      refine hlocated fun w => (hexpr value List.mem_cons_self true w).bind fun l w₁ _ hl => ?_
      exact .pure (K.emitted_ending hl.before
        (K.returns fun _ hsome => Option.some.inj hsome ▸ hl.value))
  | branch span condition thenBranch elseBranch =>
    have helse : ∀ w, I.Tracks (lowerElse c elseBranch) w fun out w' =>
        ∀ t ∈ out, I.Emitted w' [t] := by
      intro w
      unfold lowerElse
      cases elseBranch with
      | none => exact .pure fun _ hnone => by cases hnone
      | some t =>
        refine (hstmt t (by simp [Source.Stmt.statements]) true w).bind fun out w₁ _ hout => ?_
        exact .pure fun _ hsome => Option.some.inj hsome ▸ K.block hout
    unfold lowerStmt
    refine hlocated fun w => (hexpr condition List.mem_cons_self true w).bind fun l w₁ _ hl => ?_
    refine (hstmt thenBranch List.mem_cons_self true w₁).bind fun first w₂ hle₂ hfirst => ?_
    refine (helse w₂).bind fun second w₃ hle₃ hsecond => .pure ?_
    have hl := K.sound_mono hl (le_trans hle₂ hle₃)
    exact K.emitted_ending hl.before
      (K.branch hl.value (K.block (K.stmts_mono hfirst hle₃)) hsecond)
  | whileLoop span condition body =>
    unfold lowerStmt
    refine hlocated fun w => (hexpr condition List.mem_cons_self true w).bind fun l w₁ _ hl => ?_
    refine (hstmt body List.mem_cons_self true w₁).bind fun out w₂ hle hout => ?_
    exact .pure (K.emitted_whileStmt (K.sound_mono hl hle) hout)
  | doWhile span body condition =>
    unfold lowerStmt
    refine hlocated fun w => (hstmt body List.mem_cons_self true w).bind fun out w₁ _ hout => ?_
    refine (K.composed (composed_setLocation _) w₁).bind fun _ w₂ hle₂ _ => ?_
    refine (hexpr condition List.mem_cons_self true w₂).bind fun l w₃ hle₃ hl => ?_
    exact K.doWhile (K.stmts_mono hout (le_trans hle₂ hle₃)) hl
  | throw span value =>
    cases value with
    | none =>
      unfold lowerStmt
      exact hlocated fun w => (K.composed (composed_unsupported _) w).bind fun _ w₁ _ _ =>
        .pure K.nil
    | some value =>
      unfold lowerStmt
      exact hlocated fun w => (hexpr value List.mem_cons_self true w).bind fun l w₁ _ hl =>
        .pure (K.emitted_ending hl.before (K.throw hl.value))
  | unsupported span construct =>
    unfold lowerStmt
    exact hlocated fun w => (K.composed (composed_unsupported _) w).bind fun _ w₁ _ _ =>
      .pure K.nil
  | «break» span | «continue» span | empty span =>
    unfold lowerStmt
    exact hlocated fun w => .pure (K.bare rfl)

/-- A kept invariant holds of all that trees of admitted nodes are lowered to. -/
theorem lowering :
    (∀ e, (∀ n, Source.Contains (.expr e) n → admits n) → ∀ important w,
      I.Tracks (lowerExpr c e important) w fun l w' => I.Sound w' false l) ∧
    ∀ s, (∀ n, Source.Contains (.stmt s) n → admits n) → ∀ spliced w,
      I.Tracks (lowerStmt c s spliced) w fun out w' => I.Emitted w' out := by
  refine Source.contained_induction ?_ ?_ ?_ ?_ ?_ fun s _ hexpr hstmt => ?_
  · intro e hstrict hadmits hoperands important w
    rw [lowerExpr_strict c hstrict]
    refine (K.composed (composed_announce e) w).bind fun _ w₁ _ _ => ?_
    have hempty : I.SoundAll w₁ [] {} := ⟨K.nil, .nil⟩
    refine (K.tracks_lowerArguments (fun a ha hmode w => K.passReference w hadmits ha hmode)
      (fun a ha => (hoperands a ha).2 true) hempty).bind fun operands w₂ _ ho => ?_
    exact K.tracks_complete hstrict hadmits important ho
  · intro i op left right hop hleft hright important w
    simp only [lowerExpr, hop, if_true]
    refine (hleft true w).bind fun leftValue w₁ _ hl => ?_
    refine (hright true w₁).bind fun rightValue w₂ hle hr => ?_
    exact K.tracks_shortCircuit (K.sound_mono hl hle) hr op
  · intro i condition whenTrue whenFalse hcondition htrue hfalse important w
    unfold lowerExpr
    refine (hcondition true w).bind fun conditionValue w₁ _ hc => ?_
    refine (htrue true w₁).bind fun trueValue w₂ hle₂ ht => ?_
    refine (hfalse true w₂).bind fun falseValue w₃ hle₃ hf => ?_
    exact K.tracks_choose (K.sound_mono hc (le_trans hle₂ hle₃)) (K.sound_mono ht hle₃) hf
  · intro i id parameters value hadmits hvalue important w
    refine K.tracks_lambda hadmits (fun w => ?_) important
    unfold lowerLambdaBody
    refine (hvalue _ w).bind fun l w₁ _ hl => .pure (K.emitted_ending hl.before ?_)
    split
    · exact K.returns fun _ hsome => Option.some.inj hsome ▸ hl.value
    · exact K.expr hl.value
  · intro i id parameters body hadmits hbody important w
    refine K.tracks_lambda hadmits (fun w => ?_) important
    unfold lowerLambdaBody
    exact K.tracks_lowerStmts (fun s hs => hbody s hs false) w
  · exact K.tracks_lowerStmt_of_parts hexpr hstmt

end Invariant.Kept

end ScriptCompiler.Lowering
