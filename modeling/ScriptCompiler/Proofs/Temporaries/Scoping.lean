import ScriptCompiler.Proofs.Diagnostics.Findings
import ScriptCompiler.Proofs.Temporaries.Constructs

/-!
# Temporaries are well scoped

Every function body that is emitted declares the temporaries it uses, each of them once and in front
of its other occurrences, and shares none with the functions inside it.  The names of variables,
types and parameters must not look like the temporary in question.

The induction goes over the source tree: the lowering of every expression and statement is closed.
A loop that tests behind its body is the one construct that tears a declaration and its initial
value apart; the declaration moves in front of the loop.
-/

namespace ScriptCompiler

namespace Lowering

open Script (Occurrence Scan declarations stmtsOccurrences exprsOccurrences bindingsOccurrences
  optionalOccurrences elseOccurrences)
open Source (Argument Declarator Node Contains)

attribute [local simp] Script.Expr.occurrences exprsOccurrences Script.propertiesOccurrences
  optionalOccurrences bindingsOccurrences Script.Stmt.occurrences elseOccurrences stmtsOccurrences
  Script.exprsOccurrences_append Script.stmtsOccurrences_append

variable {c : Context} {k : Nat} {declared nested : Prop}

/-! ## Lists of parts -/

lemma leads_passReference {e : Source.Expr} (h : c.temporaryName k ∉ c.identifiers e) (n : Nat) :
    Leads (passReference c e) n fun value m =>
      n ≤ m ∧ Fits c k False False value.occurrences := by
  rintro s rfl
  refine ⟨(composed_passReference c e).next_le s, ?_⟩
  cases e with
  | localVar i id =>
    have hname : c.temporaryName k ≠ c.variableName id := by simpa [Context.identifiers] using h
    have hvalue : (passReference c (.localVar i id) s).1 = .ident (c.variableName id) := by
      unfold Context.variableName
      cases hget : c.scope.get? id with
      | none =>
        simp only [passReference, hget]
        rfl
      | some v =>
        cases hv : v.byReference <;> simp only [passReference, hget, hv] <;> rfl
    rw [hvalue]
    exact fits_name fun hk => absurd hk.symm hname
  | _ => exact fits_nil

lemma leads_lowerArguments {arguments : List Argument}
    (hvalue : ∀ a ∈ arguments, ClosesValue c k (lowerExpr c a.value true))
    (hnames : ∀ a ∈ arguments, c.temporaryName k ∉ c.identifiers a.value)
    {operands : Operands} {n m : Nat}
    (h : Closed c k n operands.before (exprsOccurrences operands.values) m) :
    Leads (lowerArguments c arguments operands) m fun r p =>
      Closed c k n r.before (exprsOccurrences r.values) p := by
  induction arguments generalizing operands m with
  | nil => exact .pure h
  | cons a rest ih =>
    obtain ⟨mode, value⟩ := a
    have hrest : ∀ {operands : Operands} {m : Nat},
        Closed c k n operands.before (exprsOccurrences operands.values) m →
        Leads (lowerArguments c rest operands) m fun r p =>
          Closed c k n r.before (exprsOccurrences r.values) p :=
      ih (fun a ha => hvalue a (List.mem_cons_of_mem _ ha))
        fun a ha => hnames a (List.mem_cons_of_mem _ ha)
    have hcontinue : ∀ (operand : Lowered) (p : Nat),
        Closed c k m operand.before operand.value.occurrences p →
        Leads (operands.add c operand >>= lowerArguments c rest) p fun r q =>
          Closed c k n r.before (exprsOccurrences r.values) q :=
      fun operand p hoperand => (h.add hoperand).bind fun _ _ hr => hrest hr
    unfold lowerArguments
    by_cases hmode : mode.isReference = true
    · simp only [hmode, if_true, bind_map_left]
      exact (leads_passReference (hnames _ List.mem_cons_self) m).bind fun e p he =>
        hcontinue _ p (.of_fits (he.2.mono False.elim False.elim) he.1)
    · simp only [hmode]
      exact (hvalue _ List.mem_cons_self m).bind hcontinue

lemma leads_lowerStmts {statements : List Source.Stmt}
    (h : ∀ s ∈ statements, ClosesStmts c k (lowerStmt c s false)) :
    ClosesStmts c k (lowerStmts c statements) := by
  intro n
  induction statements generalizing n with
  | nil =>
    unfold lowerStmts
    exact .pure (.nil (Nat.le_refl _))
  | cons s rest ih =>
    unfold lowerStmts
    refine (h s List.mem_cons_self n).bind fun first m hfirst => ?_
    refine (ih (fun t ht => h t (List.mem_cons_of_mem _ ht)) m).bind fun others p hothers => ?_
    exact .pure (hfirst.seq hothers)

/-! ## Declarations -/

lemma flush_occurrences (bindings : List Script.Binding) :
    stmtsOccurrences (flush bindings) = bindingsOccurrences bindings := by
  cases bindings <;> simp [flush]

lemma bindingOf_occurrences (v : Variable) (initializer : Option Script.Expr) :
    bindingsOccurrences [bindingOf c v initializer] =
      .declared v.name :: optionalOccurrences initializer := by
  unfold bindingOf
  split
  · cases initializer <;> simp [container]
  · simp

lemma leads_lowerInitializer {initializer : Option Source.Expr}
    (h : ∀ e, initializer = some e → ClosesValue c k (lowerExpr c e true)) (n : Nat) :
    Leads (lowerInitializer c initializer) n fun value m =>
      Closed c k n (value.elim [] (·.before)) (optionalOccurrences (value.map (·.value))) m := by
  unfold lowerInitializer
  split
  · exact .pure (.nil (Nat.le_refl _))
  · exact (h _ rfl n).bind fun l m hl => .pure hl

/-- The bindings of a batch fit in wherever the batch is emitted. -/
lemma suppliesFrom_flush {batch : List Script.Binding} {n m : Nat}
    (h : Fits c k declared nested (bindingsOccurrences batch)) (hle : n ≤ m) :
    SuppliesFrom c k declared nested n (flush batch) [] m := by
  refine ⟨hle, ?_⟩
  rw [flush_occurrences]
  exact (Supplies.of_fits fits_nil).append (h.mono .inl fun hn => hn)

/-- Declarations are emitted in batches.  The bindings of a batch are still to come when the
declarators behind it take the numbers from `n` on: `out` supplies itself, and inner functions may use
the temporary if `out` does not declare it. -/
def ClosedBehind (c : Context) (k : Nat) (declared nested : Prop) (n : Nat) (out : List Script.Stmt)
    (m : Nat) : Prop :=
  SuppliesFrom c k declared
    (nested ∨ (n ≤ k ∧ k < m ∧ timesDeclared c k (stmtsOccurrences out) = 0)) n out [] m

namespace ClosedBehind

variable {n m p q : Nat} {batch : List Script.Binding} {before out : List Script.Stmt}

/-- The numbers from `m` to `p` that the values of a batch may use are taken before the others. -/
lemma earlier (h : ClosedBehind c k declared (nested ∨ (m ≤ k ∧ k < p)) p out q) (hnm : n ≤ m)
    (hmp : m ≤ p) : ClosedBehind c k declared nested n out q := by
  have hrange := h.2.range
  have hle := h.1
  refine ⟨by omega, h.2.mono (fun hd => hd) ?_ (by omega)⟩
  rintro ((hn | hn) | hn)
  · exact .inl hn
  · exact .inr (by omega)
  · exact .inr (by omega)

/-- A batch is flushed in front of what the next value hoists. -/
lemma flushed {values : List Occurrence}
    (hbatch : Fits c k declared nested (bindingsOccurrences batch))
    (hnm : n ≤ m) (hvalue : Closed c k m before values p)
    (hout : ClosedBehind c k (False ∨ timesDeclared c k (stmtsOccurrences before) ≠ 0)
      (m ≤ k ∧ k < p ∧ timesDeclared c k (stmtsOccurrences before) = 0) p out q) :
    ClosedBehind c k declared nested n (flush batch ++ before ++ out) q := by
  have hb := hvalue.mem_range
  have hle := hvalue.1
  have hle' := hout.1
  have hrange := hout.2.range
  have htimes : timesDeclared c k (stmtsOccurrences (flush batch ++ before ++ out)) =
      timesDeclared c k (stmtsOccurrences before) + timesDeclared c k (stmtsOccurrences out) := by
    rw [Script.stmtsOccurrences_append, Script.stmtsOccurrences_append, flush_occurrences,
      timesDeclared_append, timesDeclared_append, hbatch.timesDeclared_eq_zero, Nat.zero_add]
  refine ((suppliesFrom_flush (hbatch.mono (fun hd => hd) .inl) hnm).seq ⟨hvalue.1,
    (hvalue.2.mono False.elim ?_ fun hr => hr).values fun _ => fits_nil⟩).seq
    ⟨hout.1, hout.2.mono ?_ ?_ fun hr => hr⟩
  · exact fun hn => .inr (by omega)
  · rw [Script.stmtsOccurrences_append, timesDeclared_append]
    rintro (hd | hd)
    · exact hd.elim
    · exact .inr (by omega)
  · rintro (hn | hn)
    · exact .inr (by omega)
    · exact .inr (by omega)

end ClosedBehind

variable {bindings : List Script.Binding} {parts : List Script.Expr}

/-- A binding fits in wherever its value does, if its name does not look like the temporary. -/
lemma fits_bindingOf {v : Variable} (hname : c.temporaryName k ≠ v.name) {value : Option Script.Expr}
    (h : Fits c k declared nested (optionalOccurrences value)) :
    Fits c k declared nested (bindingsOccurrences [bindingOf c v value]) := by
  rw [bindingOf_occurrences]
  exact List.forall_mem_cons.mpr ⟨Ne.symm hname, h⟩

/-- Declarators behind a batch are closed, if the values of the batch fit in. -/
lemma leads_lowerDeclarators {declarators : List Declarator}
    (hvalue : ∀ e ∈ declarators.filterMap Declarator.initializer,
      ClosesValue c k (lowerExpr c e true))
    (hnames : c.temporaryName k ∉ declarators.filterMap fun d => (c.scope.get? d.id).map (·.name))
    {batch : List Script.Binding} (hbatch : Fits c k declared nested (bindingsOccurrences batch))
    (n : Nat) :
    Leads (lowerDeclarators c declarators batch) n (ClosedBehind c k declared nested n) := by
  induction declarators generalizing declared nested batch n with
  | nil =>
    unfold lowerDeclarators
    exact .pure (suppliesFrom_flush (hbatch.mono (fun hd => hd) .inl) (Nat.le_refl _))
  | cons d rest ih =>
    obtain ⟨id, name, initializer, span⟩ := d
    obtain ⟨hinitializer, hvalues⟩ := Source.forall_initializers_cons.mp hvalue
    unfold lowerDeclarators
    refine ((composed_setLocation (c := c) _).leads n).bind fun _ m hm => ?_
    split
    · rename_i hget
      have hnames' : c.temporaryName k ∉ rest.filterMap fun d =>
          (c.scope.get? d.id).map (·.name) := by
        simpa only [List.filterMap_cons, Declarator.id, hget, Option.map_none] using hnames
      refine ((composed_internalError (c := c) _).leads m).bind fun _ p hp => ?_
      exact (ih hvalues hnames' (hbatch.mono (fun hd => hd) .inl) p).mono fun out q hout =>
        hout.earlier hm hp
    · rename_i v hget
      have hboth : c.temporaryName k ∉ v.name :: rest.filterMap fun d =>
          (c.scope.get? d.id).map (·.name) := by
        simpa only [List.filterMap_cons, Declarator.id, hget, Option.map_some] using hnames
      obtain ⟨hname, hnames'⟩ := not_or.mp (List.mem_cons.not.mp hboth)
      refine (leads_lowerInitializer hinitializer m).bind fun value p hvalue => ?_
      have hfits := fits_bindingOf hname hvalue.2.fits
      dsimp only
      split
      · -- nothing is hoisted: the binding joins the batch
        rename_i hempty
        rw [hempty] at hfits
        have hjoined : Fits c k declared (nested ∨ (m ≤ k ∧ k < p))
            (bindingsOccurrences (batch ++ [bindingOf c v (value.map (·.value))])) := by
          rw [Script.bindingsOccurrences_append, fits_append]
          exact ⟨hbatch.mono (fun hd => hd) .inl,
            hfits.mono (fun hd => by simp [stmtsOccurrences, timesDeclared,
              Script.declarations_nil] at hd) fun hn => .inr ⟨hn.1, hn.2.1⟩⟩
        exact (ih hvalues hnames' hjoined p).mono fun out q hout => hout.earlier hm hvalue.1
      · exact (ih hvalues hnames' hfits p).bind fun out q hout =>
          .pure (.flushed hbatch hm hvalue hout)

/-! ## Loops that test behind their bodies -/

/-- Names that are declared without value can stand anywhere. -/
lemma scan_of_declared {x : String} {os : List Occurrence}
    (h : ∀ o ∈ os, ∃ y, o = .declared y) : Scan x declared nested os := by
  induction os generalizing declared with
  | nil => trivial
  | cons o rest ih =>
    obtain ⟨⟨y, rfl⟩, hrest⟩ := List.forall_mem_cons.mp h
    refine ⟨?_, ih hrest⟩
    by_cases hy : y = x
    · exact .inl (beq_iff_eq.mpr hy)
    · exact .inr hy

/-- The bindings of a comma expression declare what the statements did, without values. -/
lemma commaParts?_declared {statements : List Script.Stmt}
    (h : commaParts? statements = some (bindings, parts)) (x : String) :
    (∀ o ∈ bindingsOccurrences bindings, ∃ y, o = .declared y) ∧
      declarations x (bindingsOccurrences bindings) = declarations x (stmtsOccurrences statements) := by
  induction statements generalizing bindings parts with
  | nil =>
    simp only [commaParts?, Option.some.injEq, Prod.mk.injEq] at h
    obtain ⟨rfl, rfl⟩ := h
    exact ⟨fun o ho => (by cases ho), rfl⟩
  | cons s rest ih =>
    obtain ⟨bindings', parts', hrest, hcases⟩ := commaParts?_cons h
    obtain ⟨hdeclared, htimes⟩ := ih hrest
    rcases hcases with ⟨e, rfl, rfl, rfl⟩ | ⟨name, initializer, rfl, rfl, rfl⟩
    · refine ⟨hdeclared, ?_⟩
      rw [htimes, stmtsOccurrences, Script.declarations_append, Script.Stmt.occurrences,
        e.declarations_occurrences, Nat.zero_add]
    · refine ⟨List.forall_mem_cons.mpr ⟨⟨name, rfl⟩, hdeclared⟩, ?_⟩
      cases initializer <;>
        simp [Script.declarations_cons, Script.declarations_append,
          Script.Expr.declarations_occurrences, htimes]

/-- The parts of a comma expression use what the statements used and what they declared. -/
lemma commaParts?_parts {statements : List Script.Stmt}
    (h : commaParts? statements = some (bindings, parts)) {o : Occurrence}
    (ho : o ∈ exprsOccurrences parts) :
    o ∈ stmtsOccurrences statements ∨
      ∃ y, o = .name y ∧ .declared y ∈ stmtsOccurrences statements := by
  induction statements generalizing bindings parts with
  | nil =>
    simp only [commaParts?, Option.some.injEq, Prod.mk.injEq] at h
    obtain ⟨rfl, rfl⟩ := h
    cases ho
  | cons s rest ih =>
    obtain ⟨bindings', parts', hrest, hcases⟩ := commaParts?_cons h
    have hlater : o ∈ exprsOccurrences parts' → o ∈ stmtsOccurrences (s :: rest) ∨
        ∃ y, o = .name y ∧ .declared y ∈ stmtsOccurrences (s :: rest) := by
      intro ho'
      rcases ih hrest ho' with hmem | ⟨y, rfl, hy⟩
      · exact .inl (List.mem_append_right _ hmem)
      · exact .inr ⟨y, rfl, List.mem_append_right _ hy⟩
    rcases hcases with ⟨e, rfl, rfl, rfl⟩ | ⟨name, initializer, rfl, rfl, rfl⟩
    · rcases List.mem_append.mp ho with ho | ho
      · exact .inl (List.mem_append_left _ ho)
      · exact hlater ho
    · rw [Script.exprsOccurrences_append, List.mem_append] at ho
      rcases ho with ho | ho
      · cases initializer with
        | none => cases ho
        | some e =>
          have ho : o = .name name ∨ o ∈ e.occurrences := by simpa [Script.Expr.set] using ho
          rcases ho with rfl | ho
          · exact .inr ⟨name, rfl, by simp⟩
          · exact .inl (by simp [ho])
      · exact hlater ho

/-- Declared in front and assigned as parts of a comma expression, temporaries are still declared
before they are used. -/
lemma supplies_commaParts {range : Prop} {before : List Script.Stmt} {v : List Occurrence}
    (hparts : commaParts? before = some (bindings, parts))
    (h : Supplies c k False nested range (stmtsOccurrences before) v) :
    Supplies c k False nested range (bindingsOccurrences bindings) (exprsOccurrences parts ++ v) := by
  obtain ⟨hdeclared, hcount⟩ := commaParts?_declared hparts (c.temporaryName k)
  have htimes : timesDeclared c k (bindingsOccurrences bindings) =
      timesDeclared c k (stmtsOccurrences before) := hcount
  refine ⟨scan_of_declared hdeclared, ?_, ?_, ?_⟩
  · rw [htimes]
    exact h.once
  · rw [htimes]
    exact h.range
  · rw [htimes, fits_append]
    refine ⟨fun o ho => ?_, h.fits⟩
    have hnone := Script.declarations_exprsOccurrences (c.temporaryName k) parts
    have hdeclares : o.declares (c.temporaryName k) = false := by
      simpa using List.countP_eq_zero.mp hnone o ho
    rcases commaParts?_parts hparts ho with hmem | ⟨y, rfl, hy⟩
    · exact h.scan.ready_of_mem hmem hdeclares
    · rintro rfl
      have hpos : 0 < timesDeclared c k (stmtsOccurrences before) :=
        List.countP_pos_iff.mpr ⟨_, hy, beq_self_eq_true _⟩
      exact .inr (Nat.ne_of_gt hpos)

lemma Closed.doWhile {body : List Script.Stmt} {condition : Lowered} {n m p : Nat}
    (hbody : Closed c k n body [] m)
    (hcondition : Closed c k m condition.before condition.value.occurrences p) :
    Leads (doWhileStmts body condition) p fun out q => Closed c k n out [] q := by
  have hle := hbody.1
  have hle' := hcondition.1
  have hb := hbody.mem_range
  have hb' := hcondition.mem_range
  unfold doWhileStmts
  by_cases hempty : condition.before = []
  · simp only [hempty, List.isEmpty_nil, if_true]
    rw [hempty] at hcondition
    refine .pure ((hbody.seq hcondition).wrap condition.value.occurrences ?_ fun h => ?_)
    · simp
    · simpa only [List.nil_append] using h
  · simp only [List.isEmpty_iff, hempty, if_false]
    split
    · rename_i bindings parts hparts
      let nested : Prop := n ≤ k ∧ k < p ∧ timesDeclared c k (stmtsOccurrences body) = 0 ∧
        timesDeclared c k (stmtsOccurrences condition.before) = 0
      have hsupplies : SuppliesFrom c k False nested n body [] m := hbody.supplies (by omega)
      have hsupplies' : SuppliesFrom c k False nested m condition.before condition.value.occurrences p :=
        hcondition.supplies (by omega)
      have hboth := (supplies_commaParts hparts hsupplies'.2).seq (hsupplies.2.behind _) (by omega)
      rw [List.append_nil] at hboth
      have hloop := hboth.append hboth.fits
      have hdeclared : timesDeclared c k (bindingsOccurrences bindings) =
          timesDeclared c k (stmtsOccurrences condition.before) :=
        (commaParts?_declared hparts (c.temporaryName k)).2
      have hvalues := hboth.fits.timesDeclared_eq_zero
      have hout : stmtsOccurrences (flush bindings ++
          [.doWhile (.block body) (.comma (parts ++ [condition.value]))]) =
          bindingsOccurrences bindings ++ stmtsOccurrences body ++
            (exprsOccurrences parts ++ condition.value.occurrences) := by
        simp [flush_occurrences]
      refine .pure ⟨by omega, ?_⟩
      rw [hout]
      refine (hloop.mono (fun hd => hd) ?_ (by omega)).values fun _ => fits_nil
      rintro ⟨hlow, hhigh, hbody₀, hbefore₀⟩
      refine ⟨hlow, hhigh, ?_⟩
      rw [timesDeclared_append, timesDeclared_append, hdeclared, hvalues, hbody₀, hbefore₀]
    · refine ((composed_unsupported (c := c) _).leads p).bind fun _ q hq => .pure (.nil (by omega))

/-! ## Expressions and statements -/

lemma whileStmt_occurrences (condition : Lowered) (body : List Script.Stmt) :
    stmtsOccurrences [whileStmt condition body] =
      stmtsOccurrences (condition.before ++ [.expr condition.value] ++ body) := by
  unfold whileStmt
  by_cases hempty : condition.before = []
  · simp [hempty]
  · simp [hempty]

/-- Setting the location changes nothing. -/
lemma leads_located {step : Lower (List Script.Stmt)}
    (h : ClosesStmts c k step) (location : Location) :
    ClosesStmts c k (do setLocation location; step) :=
  fun n => ((composed_setLocation (c := c) location).leads n).bind fun _ m hm =>
    (h m).mono fun _ _ hout => hout.from_le hm

/-- Statements without occurrences are closed. -/
lemma leads_silent {out : List Script.Stmt} (h : stmtsOccurrences out = []) :
    ClosesStmts c k (Pure.pure out) :=
  fun n => .pure ((Closed.nil (Nat.le_refl n)).wrap [] h fun hv => hv)

lemma leads_lowerElse {branch : Option Source.Stmt}
    (h : ∀ t, branch = some t → ClosesStmts c k (lowerStmt c t true)) (n : Nat) :
    Leads (lowerElse c branch) n fun lowered m =>
      ∃ out, elseOccurrences lowered = stmtsOccurrences out ∧ Closed c k n out [] m := by
  unfold lowerElse
  split
  · exact .pure ⟨[], by simp, .nil (Nat.le_refl _)⟩
  · exact (h _ rfl n).bind fun out m hout => .pure ⟨out, by simp, hout⟩

/-- A statement that ends with the value. -/
lemma Closed.ending {l : Lowered} {n m : Nat} (h : Closed c k n l.before l.value.occurrences m)
    {last : Script.Stmt} (hlast : last.occurrences = l.value.occurrences) :
    Closed c k n (l.before ++ [last]) [] m :=
  h.wrap l.value.occurrences (by simp [hlast]) fun h => h

/-- A statement is closed if its parts are. -/
lemma leads_lowerStmt_of_parts {s : Source.Stmt}
    (hexpr : ∀ e ∈ s.expressions, ∀ important, ClosesValue c k (lowerExpr c e important))
    (hstmt : ∀ t ∈ s.statements, ∀ spliced, ClosesStmts c k (lowerStmt c t spliced))
    (hnames : c.temporaryName k ∉ c.nodeIdentifiers (.stmt s)) (spliced : Bool) :
    ClosesStmts c k (lowerStmt c s spliced) := by
  have hvalue : ∀ e ∈ s.expressions, ∀ important (build : Script.Expr → Script.Stmt),
      (∀ e, (build e).occurrences = e.occurrences) →
      ClosesStmts c k (do
        let l ← lowerExpr c e important
        return l.before ++ [build l.value]) := by
    intro e he important build hbuild n
    exact (hexpr e he important n).bind fun l m hl => .pure (hl.ending (hbuild _))
  have hblock : ∀ body, body = s.statements →
      ClosesStmts c k (do return [.block (← lowerStmts c body)]) := by
    rintro body rfl n
    exact (leads_lowerStmts (fun t ht => hstmt t ht false) n).bind fun out m hout =>
      .pure (hout.wrap [] (by simp) fun h => h)
  cases s with
  | comment span kind content =>
    unfold lowerStmt
    refine leads_located (leads_silent ?_) _
    unfold commentStmts
    split
    · simp
    · split <;> simp
    all_goals simp
  | declare span declarators =>
    unfold lowerStmt
    refine leads_located (fun m => ?_) _
    have hbatch : Fits c k False False (bindingsOccurrences []) := fits_nil
    refine (leads_lowerDeclarators (fun e he => hexpr e he true) hnames hbatch m).mono
      fun out p hout => ?_
    exact ⟨hout.1, hout.2.mono (fun hd => hd) (fun hn => hn.resolve_left fun hf => hf) fun hr => hr⟩
  | expr span value =>
    unfold lowerStmt
    exact leads_located (hvalue value List.mem_cons_self false .expr (by simp)) _
  | block span body =>
    unfold lowerStmt
    split
    · exact leads_lowerStmts fun t ht => hstmt t ht false
    · exact leads_located (hblock body rfl) _
  | checked span body | unchecked span body =>
    unfold lowerStmt
    exact leads_located (hblock body rfl) _
  | «return» span value =>
    cases value with
    | none =>
      unfold lowerStmt
      exact leads_located (leads_silent (by simp)) _
    | some value =>
      unfold lowerStmt
      exact leads_located (hvalue value List.mem_cons_self true
        (fun e => .return (some e)) (by simp)) _
  | branch span condition thenBranch elseBranch =>
    have helse : ∀ t, elseBranch = some t → ClosesStmts c k (lowerStmt c t true) := by
      rintro t rfl
      exact hstmt t (by simp [Source.Stmt.statements]) true
    unfold lowerStmt
    refine leads_located (fun m => ?_) _
    refine (hexpr condition List.mem_cons_self true m).bind fun l p hl => ?_
    refine (hstmt thenBranch List.mem_cons_self true p).bind fun out q hout => ?_
    refine (leads_lowerElse helse q).bind ?_
    rintro lowered r ⟨out', hlowered, hout'⟩
    have htest : Closed c k m (l.before ++ [.expr l.value]) [] p := hl.ending (by simp)
    exact .pure (((htest.seq hout).seq hout').wrap [] (by simp [hlowered]) fun h => h)
  | whileLoop span condition body =>
    unfold lowerStmt
    refine leads_located (fun m => ?_) _
    refine (hexpr condition List.mem_cons_self true m).bind fun l p hl => ?_
    refine (hstmt body List.mem_cons_self true p).bind fun out q hout => ?_
    have htest : Closed c k m (l.before ++ [.expr l.value]) [] p := hl.ending (by simp)
    refine .pure ((htest.seq hout).wrap [] ?_ fun h => h)
    rw [whileStmt_occurrences, List.append_nil]
  | doWhile span body condition =>
    unfold lowerStmt
    refine leads_located (fun m => ?_) _
    refine (hstmt body List.mem_cons_self true m).bind fun out p hout => ?_
    refine ((composed_setLocation (c := c) _).leads p).bind fun _ q hq => ?_
    refine (hexpr condition List.mem_cons_self true q).bind fun l r hl => ?_
    exact hout.doWhile (hl.from_le hq)
  | «break» span | «continue» span | empty span =>
    unfold lowerStmt
    exact leads_located (leads_silent (by simp)) _
  | throw span value =>
    cases value with
    | none =>
      unfold lowerStmt
      refine leads_located (fun m => ?_) _
      exact ((composed_unsupported (c := c) _).leads m).bind fun _ p hp => .pure (.nil hp)
    | some value =>
      unfold lowerStmt
      exact leads_located (hvalue value List.mem_cons_self true .throw (by simp)) _
  | unsupported span construct =>
    unfold lowerStmt
    refine leads_located (fun m => ?_) _
    exact ((composed_unsupported (c := c) _).leads m).bind fun _ p hp => .pure (.nil hp)

/-- Lowering is closed, wherever no identifier looks like the temporary. -/
lemma leads_lowering (c : Context) (k : Nat) :
    (∀ e : Source.Expr, (∀ node, Contains (.expr e) node → c.temporaryName k ∉ c.nodeIdentifiers node) →
      ∀ important, ClosesValue c k (lowerExpr c e important)) ∧
    ∀ s : Source.Stmt, (∀ node, Contains (.stmt s) node → c.temporaryName k ∉ c.nodeIdentifiers node) →
      ∀ spliced, ClosesStmts c k (lowerStmt c s spliced) := by
  refine Source.contained_induction ?_ ?_ ?_ ?_ ?_ ?_
  · intro e hstrict hnames hoperands important n
    rw [lowerExpr_strict c hstrict]
    refine ((composed_announce (c := c) e).leads n).bind fun _ m hm => ?_
    have hstart : Closed c k m ({} : Operands).before (exprsOccurrences ({} : Operands).values) m :=
      .nil (Nat.le_refl m)
    refine (leads_lowerArguments (fun a ha => (hoperands a ha).2 true)
      (fun a ha => (hoperands a ha).1) hstart).bind fun operands p hp => ?_
    exact (hp.complete hnames important).mono fun l q hl => hl.from_le hm
  · intro i op left right hop hleft hright important n
    simp only [lowerExpr, hop, if_true]
    refine (hleft true n).bind fun l m hl => ?_
    refine (hright true m).bind fun r p hr => ?_
    exact hl.shortCircuit hr op
  · intro i condition whenTrue whenFalse hcondition htrue hfalse important n
    unfold lowerExpr
    refine (hcondition true n).bind fun l m hl => ?_
    refine (htrue true m).bind fun l' p hl' => ?_
    refine (hfalse true p).bind fun l'' q hl'' => ?_
    exact hl.choose hl' hl''
  · intro i id parameters value hnames hvalue important n
    refine leads_lambda (fun m => ?_) hnames i id important n
    unfold lowerLambdaBody
    exact (hvalue _ m).bind fun l p hl => .pure (hl.ending (by split <;> simp))
  · intro i id parameters body hnames hbody important n
    refine leads_lambda (fun m => ?_) hnames i id important n
    unfold lowerLambdaBody
    exact leads_lowerStmts (fun s hs => hbody s hs false) m
  · intro s hnames hexpr hstmt spliced
    exact leads_lowerStmt_of_parts hexpr hstmt hnames spliced

end Lowering

namespace Session

open Lowering
open Script (Encloses DeclaredFirst KeptInside stmtsOccurrences)
open Source (Contains Node)

/-- Temporaries are well scoped.  Wherever no identifier of the body looks like a temporary, every
function body of the script that uses the temporary declares it, once and in front of its other
occurrences, and no function inside that body uses it.  All the temporaries that are given out for
one body are different. -/
theorem compileBody_wellScoped (s : Session) (b : Body) (r r' : Reporter)
    (out : List Script.Stmt) (h : s.compileBody b r = some (out, r')) :
    (∀ k, (∀ node, Contains (.stmt b.statement) node →
        (s.context b).temporaryName k ∉ (s.context b).nodeIdentifiers node) →
      ∀ body, Encloses (stmtsOccurrences out) body →
        DeclaredFirst ((s.context b).temporaryName k) body ∧
        KeptInside ((s.context b).temporaryName k) body) ∧
    (∃ names,
      Calls (s.context b) (lowerStmt (s.context b) b.statement true) { reporter := r } names) ∧
    ∀ names,
      Calls (s.context b) (lowerStmt (s.context b) b.statement true) { reporter := r } names →
      names.Nodup := by
  have hout : (lowerStmt (s.context b) b.statement true { reporter := r }).1 = out := by
    rw [compileBody_eq] at h
    split at h
    · cases h
    · exact congrArg Prod.fst (Option.some.inj h)
  refine ⟨fun k hnames body hbody => ?_, composed_lowerStmt _ _ _ _, fun names hcalls => hcalls.nodup⟩
  have hclosed := (leads_lowering (s.context b) k).2 b.statement hnames true _ { reporter := r } rfl
  rw [hout] at hclosed
  have hscan := hclosed.2.scan.mono (fun hd => hd) fun hn => hn.2.2
  obtain ⟨hfirst, hkept⟩ := hscan.wellScoped_of_encloses hclosed.2.once hbody
  exact ⟨hfirst, hkept⟩

/-- A property behind accessors. -/
def sampleScoping : Session where
  naming := { memberForms := [(⟨0⟩, .property "get_size" "set_size")] }

/-- `b.size = a` -/
def sampleScopingSet : Source.Expr :=
  .assign {} none (.property {} (some (.localVar {} ⟨1⟩)) ⟨0⟩) (.localVar {} ⟨0⟩)

/-- `() => { return b.size = a; }` -/
def sampleScopingFunction : Source.Expr :=
  .lambda {} ⟨0⟩ [] (.block [.return {} (some sampleScopingSet)])

/-- `a(b.size = a, () => { return b.size = a; })` -/
def sampleScopingCall : Source.Expr :=
  .delegateCall {} (.localVar {} ⟨0⟩)
    [.mk .value sampleScopingSet, .mk .value sampleScopingFunction]

/-- The call as a body; it needs two temporaries, and the function in it needs a third. -/
def sampleScopingBody : Body where
  scope := { entries := [(⟨0⟩, { name := "a" }), (⟨1⟩, { name := "b" })] }
  lambdas := [.mk ⟨0⟩ false []]
  statement := .expr {} sampleScopingCall

/-- No identifier of the body looks like a temporary. -/
lemma not_mem_sampleScoping (k : Nat) (node : Node)
    (hnode : Contains (.stmt sampleScopingBody.statement) node) :
    (sampleScoping.context sampleScopingBody).temporaryName k ∉
      (sampleScoping.context sampleScopingBody).nodeIdentifiers node := by
  have hidentifiers : ∀ n ∈ (Node.stmt (.expr {} sampleScopingCall)).nodes,
      ∀ x ∈ (sampleScoping.context sampleScopingBody).nodeIdentifiers n, x = "a" ∨ x = "b" := by
    have ha : (sampleScoping.context sampleScopingBody).variableName ⟨0⟩ = "a" := rfl
    have hb : (sampleScoping.context sampleScopingBody).variableName ⟨1⟩ = "b" := rfl
    simp [sampleScopingCall, sampleScopingSet, sampleScopingFunction,
      Node.nodes_eq, Node.parts, Source.Expr.inTurn, Source.Expr.operands, Source.Argument.value,
      Source.Stmt.expressions, Source.Stmt.statements, Context.nodeIdentifiers,
      Context.identifiers, ha, hb]
  intro hmem
  have hhead : ((sampleScoping.context sampleScopingBody).temporaryName k).toList =
      '$' :: 't' :: (toString k).toList := by
    rw [Context.temporaryName, String.toList_append]
    rfl
  rcases hidentifiers node (Node.mem_nodes_of_contains hnode) _ hmem with h | h
  all_goals
    rw [h] at hhead
    simp at hhead

/-- The sample is compiled, and its three temporaries stay in the bodies that use them. -/
theorem compileBody_wellScoped_sampleScoping :
    ∃ out r', sampleScoping.compileBody sampleScopingBody {} = some (out, r') ∧
      (∀ k node, Contains (.stmt sampleScopingBody.statement) node →
        (sampleScoping.context sampleScopingBody).temporaryName k ∉
          (sampleScoping.context sampleScopingBody).nodeIdentifiers node) ∧
      (∀ k body, Encloses (stmtsOccurrences out) body →
        DeclaredFirst ((sampleScoping.context sampleScopingBody).temporaryName k) body ∧
        KeptInside ((sampleScoping.context sampleScopingBody).temporaryName k) body) ∧
      ∃ names, Calls (sampleScoping.context sampleScopingBody)
        (lowerStmt (sampleScoping.context sampleScopingBody) sampleScopingBody.statement true)
        { reporter := {} } names ∧ names.Nodup := by
  refine ⟨_, _, rfl, not_mem_sampleScoping, ?_⟩
  obtain ⟨hscoped, ⟨names, hcalls⟩, hnodup⟩ :=
    compileBody_wellScoped sampleScoping sampleScopingBody {} _ _ rfl
  exact ⟨fun k => hscoped k (not_mem_sampleScoping k), names, hcalls, hnodup names hcalls⟩

end Session

end ScriptCompiler
