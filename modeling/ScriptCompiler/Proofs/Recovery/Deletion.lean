import ScriptCompiler.Proofs.Recovery.Pruning
import ScriptCompiler.Proofs.Traversal.Steps

/-!
# Going on after a construct that is not lowered

A construct that is never lowered is reported and skipped, and nothing else changes: the rest of
the body becomes the same script, with the same temporaries, as if the construct were not there,
and its messages are the same at the same locations.

Two runs are compared, of a tree and of the pruned tree.  `Recovers` says that they yield the same
and that the messages of the first are those of the second with given messages in between.
Expressions keep the current location, so their runs stay at one location; statements set the
location themselves and may leave another one behind.
-/

namespace ScriptCompiler

/-! ## Interleaved lists -/

/-- The list `all` is `kept` with the elements of `inserted` in between, both in their order. -/
inductive Interleaves {α : Type} : List α → List α → List α → Prop
  | nil : Interleaves [] [] []
  | keep {a : α} {kept inserted all : List α} :
      Interleaves kept inserted all → Interleaves (a :: kept) inserted (a :: all)
  | insert {a : α} {kept inserted all : List α} :
      Interleaves kept inserted all → Interleaves kept (a :: inserted) (a :: all)

namespace Interleaves

variable {α : Type}

lemma of_kept (kept : List α) : Interleaves kept [] kept := by
  induction kept with
  | nil => exact .nil
  | cons a kept ih => exact .keep ih

lemma append {kept kept' inserted inserted' all all' : List α}
    (h : Interleaves kept inserted all) (h' : Interleaves kept' inserted' all') :
    Interleaves (kept ++ kept') (inserted ++ inserted') (all ++ all') := by
  induction h with
  | nil => exact h'
  | keep _ ih => exact .keep ih
  | insert _ ih => exact .insert ih

end Interleaves

namespace Lowering

open Source

/-! ## Two runs side by side -/

/-- The states agree except for the location and the messages. -/
structure Alike (s s' : State) : Prop where
  next_eq : s.next = s'.next
  dangling_eq : s.dangling = s'.dangling
  promote_eq : s.reporter.promoteWarnings = s'.reporter.promoteWarnings

/-- The states agree except for the messages. -/
structure SameSite (s s' : State) : Prop extends Alike s s' where
  location_eq : s.reporter.location = s'.reporter.location

/-- From related states, the two steps yield the same and leave related states, and the messages
of the first are those of the second with `inserted` in between. -/
def Recovers {α : Type} (before after : State → State → Prop) (step pruned : Lower α)
    (inserted : List Reported) : Prop :=
  ∀ s s', before s s' → (step s).1 = (pruned s').1 ∧ after (step s).2 (pruned s').2 ∧
    ∃ kept all, (pruned s').2.reporter.messages = s'.reporter.messages ++ kept ∧
      (step s).2.reporter.messages = s.reporter.messages ++ all ∧ Interleaves kept inserted all

variable {α β : Type} {R R' R'' : State → State → Prop} {inserted inserted' : List Reported}
  {step pruned : Lower α}

namespace Recovers

variable {next prunedNext : α → Lower β}

lemma pure (a : α) : Recovers R R (Pure.pure a) (Pure.pure a) [] := by
  intro s s' h
  exact ⟨rfl, h, [], [], (List.append_nil _).symm, (List.append_nil _).symm, .nil⟩

lemma bind (h : Recovers R R' step pruned inserted)
    (hnext : ∀ a, Recovers R' R'' (next a) (prunedNext a) inserted') :
    Recovers R R'' (step >>= next) (pruned >>= prunedNext) (inserted ++ inserted') := by
  intro s s' hs
  obtain ⟨hvalue, hstate, kept, all, hkept, hall, hmerge⟩ := h s s' hs
  obtain ⟨hvalue', hstate', kept', all', hkept', hall', hmerge'⟩ := hnext (step s).1 _ _ hstate
  have hpruned : (pruned >>= prunedNext) s' = prunedNext (step s).1 (pruned s').2 := by
    rw [hvalue]
    rfl
  rw [hpruned]
  refine ⟨hvalue', hstate', kept ++ kept', all ++ all', ?_, ?_, hmerge.append hmerge'⟩
  · rw [hkept', hkept, List.append_assoc]
  · rw [← List.append_assoc, ← hall]
    exact hall'

/-- A first step that does the same in both runs. -/
lemma same_bind (h : Recovers R R' step pruned [])
    (hnext : ∀ a, Recovers R' R'' (next a) (prunedNext a) inserted) :
    Recovers R R'' (step >>= next) (pruned >>= prunedNext) inserted := by
  have hbind := h.bind hnext
  rwa [List.nil_append] at hbind

/-- A last step that does the same in both runs. -/
lemma bind_same (h : Recovers R R' step pruned inserted)
    (hnext : ∀ a, Recovers R' R'' (next a) (prunedNext a) []) :
    Recovers R R'' (step >>= next) (pruned >>= prunedNext) inserted := by
  have hbind := h.bind hnext
  rwa [List.append_nil] at hbind

/-- A last step that yields a value from the result. -/
lemma bind_pure (h : Recovers R R' step pruned inserted) (f : α → β) :
    Recovers R R' (step >>= fun a => Pure.pure (f a)) (pruned >>= fun a => Pure.pure (f a))
      inserted :=
  h.bind_same fun a => .pure (f a)

lemma weaken (h : Recovers R SameSite step pruned inserted) :
    Recovers R Alike step pruned inserted := by
  intro s s' hs
  obtain ⟨hvalue, hstate, hmessages⟩ := h s s' hs
  exact ⟨hvalue, hstate.toAlike, hmessages⟩

lemma strengthen (h : Recovers Alike R' step pruned inserted) :
    Recovers SameSite R' step pruned inserted :=
  fun s s' hs => h s s' hs.toAlike

end Recovers

variable {s : Source.Stmt}

/-- A composed step does the same in both runs, because it only adds messages. -/
lemma Composed.recovers {c : Context} {step : Lower α} (h : Composed c step) :
    Recovers SameSite SameSite step step [] := by
  intro s s' hs
  let quiet : State := { s with reporter := { s.reporter with messages := [] } }
  have hleft : s = quiet.behind s.reporter.messages := by
    simp only [quiet, State.behind, List.append_nil]
  have hright : s' = quiet.behind s'.reporter.messages := by
    obtain ⟨⟨hnext, hdangling, hpromote⟩, hlocation⟩ := hs
    obtain ⟨next, ⟨promote, location, messages⟩, dangling⟩ := s'
    simp only at hnext hdangling hpromote hlocation
    simp only [quiet, State.behind, List.append_nil, hnext, hdangling, hpromote, hlocation]
  have hstep := h.appendOnly s.reporter.messages quiet
  have hstep' := h.appendOnly s'.reporter.messages quiet
  rw [← hleft] at hstep
  rw [← hright] at hstep'
  rw [hstep, hstep']
  exact ⟨rfl, ⟨⟨rfl, rfl, rfl⟩, rfl⟩, _, _, rfl, rfl, .of_kept _⟩

/-- Setting the location brings the runs to one location. -/
lemma recovers_setLocation (location : Location) :
    Recovers Alike SameSite (setLocation location) (setLocation location) [] := by
  intro s s' h
  exact ⟨rfl, ⟨⟨h.next_eq, h.dangling_eq, h.promote_eq⟩, rfl⟩, [], [], (List.append_nil _).symm,
    (List.append_nil _).symm, .nil⟩

/-- A step behind a location that is set. -/
lemma Recovers.located (location : Location)
    (h : Recovers SameSite R step pruned inserted) :
    Recovers Alike R (setLocation location >>= fun _ => step)
      (setLocation location >>= fun _ => pruned) inserted :=
  (recovers_setLocation location).same_bind fun _ => h

/-! ## Messages for what was removed -/

/-- The word for a statement that is never lowered. -/
def removalName : Source.Stmt → String
  | .unsupported _ construct => construct.name
  | _ => "rethrow"

/-- The message for a statement that is never lowered, at its own place. -/
def removalMessage (c : Context) (s : Source.Stmt) : Reported where
  severity := .error
  code := "SC7001"
  text := Message.unsupportedConstruct.text [removalName s]
  location := c.location s.span

/-- The messages for those of the given statements that are never lowered. -/
def removalMessages (c : Context) (statements : List Source.Stmt) : List Reported :=
  (statements.filter Source.Stmt.isRemoved).map (removalMessage c)

lemma removalMessages_append (c : Context) (xs ys : List Source.Stmt) :
    removalMessages c (xs ++ ys) = removalMessages c xs ++ removalMessages c ys := by
  simp only [removalMessages, List.filter_append, List.map_append]

lemma removalMessages_cons {c : Context} (h : s.isRemoved = false) (rest : List Source.Stmt) :
    removalMessages c (s :: rest) = removalMessages c rest := by
  simp only [removalMessages, List.filter_cons, h, Bool.false_eq_true, if_false]

/-- Promoting warnings leaves errors alone, so the message is the same for every reporter. -/
lemma entry_unsupported (r : Reporter) (name : String) :
    r.entry .unsupportedConstruct [name] =
      { severity := .error, code := "SC7001", text := Message.unsupportedConstruct.text [name],
        location := r.location } := by
  have hseverity : Severity.error.promote r.promoteWarnings = .error := by
    cases r.promoteWarnings <;> rfl
  simp only [Reporter.entry, Message.unsupportedConstruct] at hseverity ⊢
  rw [hseverity]

/-- Reporting at the place of a statement that is never lowered adds its message. -/
lemma recovers_unsupported (c : Context) (s : Source.Stmt) :
    Recovers Alike Alike
      (do setLocation (c.location s.span); unsupported (removalName s); return ([] : List Script.Stmt))
      (Pure.pure []) [removalMessage c s] := by
  intro st st' h
  refine ⟨rfl, ⟨h.next_eq, h.dangling_eq, h.promote_eq⟩, [], [removalMessage c s],
    (List.append_nil _).symm, ?_, .insert .nil⟩
  change st.reporter.messages ++ [(st.reporter.setLocation (c.location s.span)).entry
    .unsupportedConstruct [removalName s]] = _
  rw [entry_unsupported]
  rfl

/-- A statement that is never lowered adds its message and yields nothing. -/
lemma recovers_removed (c : Context) (h : s.isRemoved = true) (spliced : Bool) :
    Recovers Alike Alike (lowerStmt c s spliced) (Pure.pure []) [removalMessage c s] := by
  cases s with
  | unsupported span construct =>
    unfold lowerStmt
    exact recovers_unsupported c (.unsupported span construct)
  | throw span value =>
    cases value with
    | some value => cases h
    | none =>
      unfold lowerStmt
      exact recovers_unsupported c (.throw span none)
  | _ => cases h

/-- A statement that is never lowered has nothing else to remove inside it. -/
lemma removalMessages_removed (c : Context) (h : s.isRemoved = true) :
    removalMessages c s.allStmts = [removalMessage c s] := by
  have hall : s.allStmts = [s] := by
    cases s with
    | unsupported span construct => simp only [Stmt.allStmts]
    | throw span value =>
      cases value with
      | some value => cases h
      | none => simp only [Stmt.allStmts, optionalStmts]
    | _ => cases h
  simp only [removalMessages, hall, List.filter_cons, h, if_true, List.filter_nil, List.map_cons,
    List.map_nil]

/-- An empty block stands for a statement that is never lowered. -/
lemma lowerStmt_prune_removed (c : Context) (h : s.isRemoved = true) :
    lowerStmt c s.prune true = Pure.pure [] := by
  cases s with
  | unsupported span construct => simp only [Stmt.prune, lowerStmt, if_true, lowerStmts]
  | throw span value =>
    cases value with
    | some value => cases h
    | none => simp only [Stmt.prune, lowerStmt, if_true, lowerStmts]
  | _ => cases h

/-! ## Bodies in which nothing else is skipped -/

/-- Nothing inside the node is skipped: targets can be assigned, arguments passed by reference are
variables, and declared variables have descriptions. -/
def Enterable (c : Context) : Node → Prop
  | .expr e => e.IsAssignable ∧
      ∀ a ∈ e.inTurn, a.mode.isReference = true → ∃ i id, a.value = .localVar i id
  | .stmt (.declare _ declarators) => ∀ d ∈ declarators, (c.scope.get? d.id).isSome
  | .stmt _ => True

/-- The expression becomes what the pruned expression does. -/
abbrev RecoversExpr (c : Context) (e : Source.Expr) (important : Bool) : Prop :=
  Recovers SameSite SameSite (lowerExpr c e important) (lowerExpr c e.prune important)
    (removalMessages c e.innerStmts)

/-- The statement becomes what the pruned statement does. -/
abbrev RecoversStmt (c : Context) (s : Source.Stmt) (spliced : Bool) : Prop :=
  Recovers Alike Alike (lowerStmt c s spliced) (lowerStmt c s.prune spliced)
    (removalMessages c s.allStmts)

variable {c : Context}

/-- Arguments are pruned one by one. -/
lemma recovers_lowerArguments {arguments : List Argument}
    (hvalue : ∀ a ∈ arguments, a.mode.isReference = false → RecoversExpr c a.value true)
    (href : ∀ a ∈ arguments, a.mode.isReference = true → ∃ i id, a.value = .localVar i id)
    (operands : Operands) :
    Recovers SameSite SameSite (lowerArguments c arguments operands)
      (lowerArguments c (arguments.map Argument.prune) operands)
      (removalMessages c (arguments.flatMap fun a => a.value.innerStmts)) := by
  induction arguments generalizing operands with
  | nil => exact .pure _
  | cons a rest ih =>
    obtain ⟨mode, value⟩ := a
    have hrest := ih (fun a ha => hvalue a (List.mem_cons_of_mem _ ha))
      fun a ha => href a (List.mem_cons_of_mem _ ha)
    have hcontinue : ∀ operand : Lowered, Recovers SameSite SameSite
        (operands.add c operand >>= lowerArguments c rest)
        (operands.add c operand >>= lowerArguments c (rest.map Argument.prune))
        (removalMessages c (rest.flatMap fun a => a.value.innerStmts)) :=
      fun operand => (composed_add c operands operand).recovers.same_bind hrest
    rw [List.flatMap_cons, removalMessages_append, List.map_cons]
    simp only [Argument.prune, Argument.value, lowerArguments]
    by_cases hmode : mode.isReference = true
    · obtain ⟨i, id, hlocal⟩ := href _ List.mem_cons_self hmode
      simp only [Argument.value] at hlocal
      subst hlocal
      simp only [hmode, if_true, Expr.prune, Expr.innerStmts]
      exact ((composed_passReference c _).map _).recovers.bind hcontinue
    · simp only [hmode]
      have hfirst := hvalue _ List.mem_cons_self (by simpa [Argument.mode] using hmode)
      exact hfirst.bind hcontinue

/-- Statements that are never lowered may be deleted from a list. -/
lemma recovers_lowerStmts {statements : List Source.Stmt}
    (h : ∀ s ∈ statements, s.isRemoved = false → RecoversStmt c s false) :
    Recovers Alike Alike (lowerStmts c statements) (lowerStmts c (pruneStmts statements))
      (removalMessages c (stmtsStmts statements)) := by
  induction statements with
  | nil =>
    simp only [pruneStmts, stmtsStmts, lowerStmts]
    exact .pure _
  | cons s rest ih =>
    have hrest := ih fun t ht => h t (List.mem_cons_of_mem _ ht)
    unfold pruneStmts stmtsStmts
    rw [removalMessages_append]
    by_cases hs : s.isRemoved = true
    · have hskip := (recovers_removed c hs false).bind fun first =>
        hrest.bind_pure fun others => first ++ others
      rw [removalMessages_removed c hs]
      simp only [hs, if_true]
      -- the deleted statement yields nothing, so the rest alone is left
      simpa only [lowerStmts, pure_bind, List.nil_append, bind_pure] using hskip
    · simp only [hs]
      unfold lowerStmts
      exact (h s List.mem_cons_self (by simpa using hs)).bind fun first =>
        hrest.bind_pure fun others => first ++ others

/-- Declarators whose variables have descriptions are pruned one by one. -/
lemma recovers_lowerDeclarators {declarators : List Declarator}
    (hvalue : ∀ e ∈ declarators.filterMap Declarator.initializer, RecoversExpr c e true)
    (hdescribed : ∀ d ∈ declarators, (c.scope.get? d.id).isSome) (batch : List Script.Binding) :
    Recovers Alike Alike (lowerDeclarators c declarators batch)
      (lowerDeclarators c (pruneDeclarators declarators) batch)
      (removalMessages c (declaratorsStmts declarators)) := by
  induction declarators generalizing batch with
  | nil =>
    simp only [pruneDeclarators, declaratorsStmts, lowerDeclarators]
    exact .pure _
  | cons d rest ih =>
    obtain ⟨id, name, initializer, span⟩ := d
    obtain ⟨hfirst, hothers⟩ := forall_initializers_cons.mp hvalue
    have hrest := ih hothers fun d hd => hdescribed d (List.mem_cons_of_mem _ hd)
    have hinitializer : Recovers SameSite SameSite (lowerInitializer c initializer)
        (lowerInitializer c (pruneOptional initializer))
        (removalMessages c (optionalStmts initializer)) := by
      cases initializer with
      | none =>
        simp only [pruneOptional, optionalStmts, lowerInitializer]
        exact .pure _
      | some e =>
        simp only [pruneOptional, optionalStmts, lowerInitializer]
        exact (hfirst e rfl).bind_pure some
    obtain ⟨v, hv⟩ := Option.isSome_iff_exists.mp (hdescribed _ List.mem_cons_self)
    simp only [Declarator.id] at hv
    simp only [pruneDeclarators, declaratorsStmts, lowerDeclarators, hv, removalMessages_append]
    refine Recovers.located _ (hinitializer.weaken.bind fun value => ?_)
    split
    · exact hrest _
    · exact (hrest _).bind_pure _

/-! ## Expressions and statements -/

/-- A function recovers if its body does. -/
lemma recovers_lambda (i : Info) (id : LambdaId) (parameters : List VariableId)
    {body : LambdaBody}
    (h : Recovers SameSite Alike (lowerLambdaBody c body) (lowerLambdaBody c body.prune)
      (removalMessages c body.innerStmts)) (important : Bool) :
    RecoversExpr c (.lambda i id parameters body) important := by
  unfold RecoversExpr
  simp only [Expr.prune, Expr.innerStmts, lowerExpr_lambda]
  exact (composed_lambdaHead c id parameters).recovers.same_bind fun head =>
    (composed_currentLocation (c := c)).recovers.same_bind fun location =>
      h.bind_same fun statements => (recovers_setLocation location).bind_pure _

/-- A statement recovers if its parts do. -/
lemma recovers_lowerStmt_of_parts (hs : s.isRemoved = false) (henter : Enterable c (.stmt s))
    (hexpr : ∀ e ∈ s.expressions, ∀ important, RecoversExpr c e important)
    (hstmt : ∀ t ∈ s.statements, ∀ spliced, (t.isRemoved = true → spliced = true) →
      RecoversStmt c t spliced) (spliced : Bool) : RecoversStmt c s spliced := by
  have hbody : ∀ body : List Source.Stmt, body = s.statements →
      Recovers Alike Alike (lowerStmts c body) (lowerStmts c (pruneStmts body))
        (removalMessages c (stmtsStmts body)) := by
    rintro body rfl
    exact recovers_lowerStmts fun t ht hkept => hstmt t ht false (fun h => by rw [hkept] at h; cases h)
  have halone : ∀ t ∈ s.statements, RecoversStmt c t true :=
    fun t ht => hstmt t ht true fun _ => rfl
  unfold RecoversStmt
  cases s with
  | comment span kind content | «break» span | «continue» span | empty span =>
    simp only [Stmt.prune, Stmt.allStmts, removalMessages_cons hs, lowerStmt]
    exact .located _ (Recovers.pure _).weaken
  | declare span declarators =>
    simp only [Stmt.prune, Stmt.allStmts, removalMessages_cons hs, lowerStmt]
    exact .located _ (recovers_lowerDeclarators (fun e he => hexpr e he true) henter []).strengthen
  | expr span value =>
    simp only [Stmt.prune, Stmt.allStmts, removalMessages_cons hs, lowerStmt]
    exact .located _ ((hexpr value List.mem_cons_self false).weaken.bind_pure _)
  | block span body =>
    simp only [Stmt.prune, Stmt.allStmts, removalMessages_cons hs, lowerStmt]
    split
    · exact hbody body rfl
    · exact .located _ ((hbody body rfl).strengthen.bind_pure _)
  | checked span body | unchecked span body =>
    simp only [Stmt.prune, Stmt.allStmts, removalMessages_cons hs, lowerStmt]
    exact .located _ ((hbody body rfl).strengthen.bind_pure _)
  | «return» span value =>
    simp only [Stmt.prune, Stmt.allStmts, removalMessages_cons hs]
    cases value with
    | none =>
      simp only [pruneOptional, optionalStmts, lowerStmt]
      exact .located _ (Recovers.pure _).weaken
    | some value =>
      simp only [pruneOptional, optionalStmts, lowerStmt]
      exact .located _ ((hexpr value List.mem_cons_self true).weaken.bind_pure _)
  | branch span condition thenBranch elseBranch =>
    have helse : Recovers Alike Alike (lowerElse c elseBranch) (lowerElse c (pruneElse elseBranch))
        (removalMessages c (elseStmts elseBranch)) := by
      cases elseBranch with
      | none =>
        simp only [pruneElse, elseStmts, lowerElse]
        exact .pure _
      | some branch =>
        simp only [pruneElse, elseStmts, lowerElse]
        exact (halone branch (by simp [Stmt.statements])).bind_pure _
    simp only [Stmt.prune, Stmt.allStmts, removalMessages_cons hs, lowerStmt,
      removalMessages_append, List.append_assoc]
    exact .located _ ((hexpr condition List.mem_cons_self true).weaken.bind fun _ =>
      (halone thenBranch List.mem_cons_self).bind fun _ => helse.bind_pure _)
  | whileLoop span condition body =>
    simp only [Stmt.prune, Stmt.allStmts, removalMessages_cons hs, lowerStmt,
      removalMessages_append]
    exact .located _ ((hexpr condition List.mem_cons_self true).weaken.bind fun _ =>
      (halone body List.mem_cons_self).bind_pure _)
  | doWhile span body condition =>
    simp only [Stmt.prune, Stmt.allStmts, removalMessages_cons hs, lowerStmt,
      removalMessages_append, Expr.span_prune]
    exact .located _ ((halone body List.mem_cons_self).strengthen.bind fun _ =>
      .located _ ((hexpr condition List.mem_cons_self true).bind_same fun _ =>
        (composed_doWhileStmts (c := c) _ _).recovers.weaken))
  | throw span value =>
    cases value with
    | none => cases hs
    | some value =>
      simp only [Stmt.prune, Stmt.allStmts, removalMessages_cons hs, optionalStmts, lowerStmt]
      exact .located _ ((hexpr value List.mem_cons_self true).weaken.bind_pure _)
  | unsupported span construct => cases hs

/-- Lowering recovers wherever nothing else is skipped. -/
lemma recovers_lowering (c : Context) :
    (∀ e : Source.Expr, (∀ n, Contains (.expr e) n → Enterable c n) → ∀ important,
      RecoversExpr c e important) ∧
    ∀ s : Source.Stmt, (∀ n, Contains (.stmt s) n → Enterable c n) → ∀ spliced,
      (s.isRemoved = true → spliced = true) → RecoversStmt c s spliced := by
  refine contained_induction ?_ ?_ ?_ ?_ ?_ ?_
  · intro e hstrict henter hoperands important
    obtain ⟨hassignable, href⟩ := henter
    have harguments := recovers_lowerArguments (c := c) (fun a ha _ => (hoperands a ha).2 true) href {}
    rw [RecoversExpr, lowerExpr_strict c hstrict,
      lowerExpr_strict c (by rw [Expr.isStrict_prune]; exact hstrict), announce_prune,
      complete_prune, Expr.inTurn_prune, Expr.innerStmts_strict hstrict hassignable]
    exact (composed_announce (c := c) e).recovers.same_bind fun _ =>
      harguments.bind_same fun operands => (composed_complete c hstrict important operands).recovers
  · intro i op left right hop hleft hright important
    unfold RecoversExpr
    simp only [Expr.prune, Expr.innerStmts, lowerExpr, hop, if_true, removalMessages_append]
    exact (hleft true).bind fun _ => (hright true).bind_same fun _ =>
      (composed_shortCircuit c op _ _).recovers
  · intro i condition whenTrue whenFalse hcondition htrue hfalse important
    unfold RecoversExpr
    simp only [Expr.prune, Expr.innerStmts, lowerExpr, removalMessages_append, List.append_assoc]
    exact (hcondition true).bind fun _ => (htrue true).bind fun _ =>
      (hfalse true).bind_same fun _ => (composed_choose c _ _ _).recovers
  · intro i id parameters value _ hvalue important
    refine recovers_lambda i id parameters ?_ important
    simp only [LambdaBody.prune, LambdaBody.innerStmts, lowerLambdaBody, Expr.type_prune]
    exact (hvalue _).weaken.bind_pure _
  · intro i id parameters body _ hbody important
    refine recovers_lambda i id parameters ?_ important
    simp only [LambdaBody.prune, LambdaBody.innerStmts, lowerLambdaBody]
    exact (recovers_lowerStmts fun s hs hkept => hbody s hs false
      (fun h => by rw [hkept] at h; cases h)).strengthen
  · intro s henter hexpr hstmt spliced hspliced
    by_cases hs : s.isRemoved = true
    · rw [hspliced hs, RecoversStmt, lowerStmt_prune_removed c hs, removalMessages_removed c hs]
      exact recovers_removed c hs true
    · exact recovers_lowerStmt_of_parts (by simpa using hs) henter hexpr hstmt spliced

/-- Recovery is deletion.  Wherever nothing else is skipped, a body becomes the same script as the
pruned body, with the same temporaries.  Its messages are those of the pruned body, with one
message for each statement that was removed in between, at the place of that statement.  The pruned
body has nothing left to remove.  A loop that is rejected for its condition yields nothing. -/
theorem lowerStmt_prune_recovers (c : Context) (t : Source.Stmt)
    (h : ∀ n, Contains (.stmt t) n → Enterable c n) (s : State) :
    (lowerStmt c t true s).1 = (lowerStmt c t.prune true s).1 ∧
    (lowerStmt c t true s).2.next = (lowerStmt c t.prune true s).2.next ∧
    (lowerStmt c t true s).2.dangling = (lowerStmt c t.prune true s).2.dangling ∧
    (∃ kept all,
      (lowerStmt c t.prune true s).2.reporter.messages = s.reporter.messages ++ kept ∧
      (lowerStmt c t true s).2.reporter.messages = s.reporter.messages ++ all ∧
      Interleaves kept ((t.allStmts.filter Stmt.isRemoved).map (removalMessage c)) all) ∧
    (∀ r ∈ t.prune.allStmts, r.isRemoved = false) ∧
    ∀ span body condition spliced st,
      (lowerStmt c (.doWhile span body condition) spliced st).1 = [] ↔
        ∃ hoisted ∈ (doWhileCondition c span body condition st).before,
          isCommaPart hoisted = false := by
  have halike : Alike s s := ⟨rfl, rfl, rfl⟩
  obtain ⟨hvalue, hstate, hmessages⟩ :=
    (recovers_lowering c).2 t h true (fun _ => rfl) s s halike
  exact ⟨hvalue, hstate.next_eq, hstate.dangling_eq, hmessages, t.isRemoved_of_mem_prune,
    doWhile_eq_nil_iff c⟩

/-- A variable and a function without parameters are all that the sample needs. -/
def sampleRecoveryContext : Context where
  scope := { entries := [(⟨0⟩, { name := "run" })] }
  lambdas := { entries := [{ id := ⟨0⟩, usesThis := false }] }

/-- A function whose body rethrows before it returns. -/
def sampleRecoveryFunction : Source.Expr :=
  .lambda {} ⟨0⟩ [] (.block [.throw { line := 2 } none, .return {} none])

/-- Constructs to remove stand in a list, in a function and alone as a branch. -/
def sampleRecovery : Source.Stmt :=
  .block {} [
    .unsupported { line := 1 } .forLoop,
    .expr {} (.delegateCall {} (.localVar {} ⟨0⟩) [.mk .value sampleRecoveryFunction]),
    .branch {} (.localVar {} ⟨0⟩) (.unsupported { line := 3 } .lock) none]

/-- Nothing in the sample is skipped but what is removed. -/
lemma enterable_sampleRecovery {n : Node} (hn : Contains (.stmt sampleRecovery) n) :
    Enterable sampleRecoveryContext n := by
  have henter : ∀ n ∈ (Node.stmt sampleRecovery).nodes, Enterable sampleRecoveryContext n := by
    simp [sampleRecovery, sampleRecoveryFunction, Node.nodes_eq, Node.parts, Expr.inTurn,
      Argument.value, Stmt.expressions, Stmt.statements, Enterable, Expr.IsAssignable,
      Argument.mode, ArgumentMode.isReference]
  exact henter n (Node.mem_nodes_of_contains hn)

/-- The sample becomes what it is without its three constructs, and each of them is reported. -/
theorem lowerStmt_prune_recovers_sampleRecovery :
    (∀ n, Contains (.stmt sampleRecovery) n → Enterable sampleRecoveryContext n) ∧
    (lowerStmt sampleRecoveryContext sampleRecovery true {}).1 =
      (lowerStmt sampleRecoveryContext sampleRecovery.prune true {}).1 ∧
    ∃ kept all,
      (lowerStmt sampleRecoveryContext sampleRecovery.prune true {}).2.reporter.messages = kept ∧
      (lowerStmt sampleRecoveryContext sampleRecovery true {}).2.reporter.messages = all ∧
      Interleaves kept
        [removalMessage sampleRecoveryContext (.unsupported { line := 1 } .forLoop),
          removalMessage sampleRecoveryContext (.throw { line := 2 } none),
          removalMessage sampleRecoveryContext (.unsupported { line := 3 } .lock)] all := by
  obtain ⟨hscript, -, -, hmessages, -⟩ :=
    lowerStmt_prune_recovers sampleRecoveryContext sampleRecovery
      (fun _ => enterable_sampleRecovery) {}
  exact ⟨fun _ => enterable_sampleRecovery, hscript, hmessages⟩

end Lowering

end ScriptCompiler
