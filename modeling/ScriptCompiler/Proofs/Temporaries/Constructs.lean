import ScriptCompiler.Proofs.Temporaries.Operations

/-!
# Constructs and their temporaries

Assignments, increments, lazy operators, choices and functions, put together from operations.  The
parts of a lazy operator and of a choice are lowered before the temporary that takes their value is
given out, although its declaration stands in front of them; this is why ranges, and not just the
order of numbers, keep the declarations apart.
-/

namespace ScriptCompiler.Lowering

open Script (Occurrence Scan stmtsOccurrences exprsOccurrences)

variable {c : Context} {k : Nat} {declared nested : Prop}

/-! ## Assignments and increments -/

lemma combine_occurrences (op : Source.BinaryOp) (integerDivision : Bool)
    (left right : Script.Expr) :
    (combine op integerDivision left right).occurrences = left.occurrences ++ right.occurrences := by
  unfold combine
  dsimp only
  split
  · simp only [truncate, Script.Expr.occurrences, List.append_nil]
  · rfl

/-- Compound assignments supply their temporaries. -/
lemma leads_compoundAssign {place : Place} {value : Script.Expr}
    (hplace : Fits c k declared nested place.occurrences)
    (hvalue : Fits c k declared nested value.occurrences) (op : Source.BinaryOp)
    (integerDivision important : Bool) (n : Nat) :
    Leads (compoundAssign c op integerDivision place value important) n fun l m =>
      SuppliesFrom c k declared nested n l.before l.value.occurrences m := by
  have hdirect : ∀ location : Script.Expr, Fits c k declared nested location.occurrences →
      Leads (Pure.pure { value := .assign (some (binaryOp op)) location value } : Lower Lowered) n
        fun l m => SuppliesFrom c k declared nested n l.before l.value.occurrences m :=
    fun location hlocation =>
      .pure (.of_fits (fits_append.mpr ⟨hlocation, hvalue⟩) (Nat.le_refl _))
  unfold compoundAssign
  split
  · exact hdirect _ hplace
  · exact hdirect _ hplace
  · refine (leads_stabilize hplace n).bind fun captured m hcaptured => ?_
    refine (leads_load hcaptured.2.fits m).bind fun current p hcurrent => ?_
    have hcombined : Fits c k (declared ∨ timesDeclared c k (stmtsOccurrences captured.1) ≠ 0) nested
        (combine op integerDivision current value).occurrences := by
      rw [combine_occurrences]
      exact fits_append.mpr ⟨hcurrent.2, hvalue.behind captured.1⟩
    refine (leads_store hcaptured.2.fits hcombined important p).bind fun stored q hstored => ?_
    exact .pure ((hcaptured.seq (hstored.from_le hcurrent.1)).values fun h => (fits_append.mp h).2)

/-- So do all assignments. -/
lemma leads_assignPlace {place : Place} {value : Script.Expr}
    (hplace : Fits c k declared nested place.occurrences)
    (hvalue : Fits c k declared nested value.occurrences) (op : Option Source.BinaryOp)
    (target source : Source.Expr) (important : Bool) (n : Nat) :
    Leads (assignPlace c op target source place value important) n fun l m =>
      SuppliesFrom c k declared nested n l.before l.value.occurrences m := by
  unfold assignPlace
  split
  · exact leads_store hplace hvalue important n
  · exact leads_compoundAssign hplace hvalue _ _ important n

lemma incrementExpr_occurrences (kind : Source.IncrementKind) (location : Script.Expr) :
    (incrementExpr kind location).occurrences = location.occurrences := by
  cases kind <;> rfl

lemma Fits.stepped {e : Script.Expr} (h : Fits c k declared nested e.occurrences)
    (kind : Source.IncrementKind) : Fits c k declared nested (stepped kind e).occurrences := by
  simp only [Lowering.stepped, Script.Expr.occurrences, List.append_nil]
  exact h

/-- So do increments. -/
lemma leads_incrementPlace {place : Place} (h : Fits c k declared nested place.occurrences)
    (kind : Source.IncrementKind) (important : Bool) (n : Nat) :
    Leads (incrementPlace c kind place important) n fun l m =>
      SuppliesFrom c k declared nested n l.before l.value.occurrences m := by
  have hdirect : ∀ location : Script.Expr, Fits c k declared nested location.occurrences →
      Leads (Pure.pure { value := incrementExpr kind location } : Lower Lowered) n
        fun l m => SuppliesFrom c k declared nested n l.before l.value.occurrences m := by
    intro location hlocation
    refine .pure (.of_fits ?_ (Nat.le_refl _))
    rw [incrementExpr_occurrences]
    exact hlocation
  unfold incrementPlace
  split
  · exact hdirect _ h
  · exact hdirect _ h
  · refine (leads_stabilize h n).bind fun captured m hcaptured => ?_
    refine (leads_load hcaptured.2.fits m).bind fun current p hcurrent => ?_
    split
    · refine (Leads.newTemporary c p).bind ?_
      rintro temporary q ⟨rfl, rfl⟩
      have hold := hcaptured.seq ((SuppliesFrom.var (some current) hcurrent.2).from_le hcurrent.1)
      obtain ⟨hplace, hname⟩ := fits_append.mp hold.2.fits
      refine (leads_store hplace (Fits.stepped (e := .ident _) hname kind) false _).bind
        fun stored r hstored => ?_
      refine .pure (((hold.seq hstored).expr fun h => (fits_append.mp h).2).values fun h => ?_)
      exact (fits_append.mp (fits_append.mp h).1).2
    · refine (leads_store hcaptured.2.fits (hcurrent.2.stepped kind) important p).bind
        fun stored q hstored => ?_
      exact .pure ((hcaptured.seq (hstored.from_le hcurrent.1)).values fun h =>
        (fits_append.mp h).2)

/-! ## Lazy operators and choices -/

lemma continuesOn_occurrences (op : Source.BinaryOp) (e : Script.Expr) :
    (continuesOn op e).occurrences = e.occurrences := by
  unfold continuesOn
  split
  · rfl
  · rfl
  · simp only [Script.Expr.occurrences, List.append_nil]

/-- So do operators that skip their right operand. -/
lemma leads_shortCircuit {left right : Lowered} {n m p : Nat}
    (hleft : SuppliesFrom c k False nested n left.before left.value.occurrences m)
    (hright : SuppliesFrom c k False nested m right.before right.value.occurrences p)
    (op : Source.BinaryOp) :
    Leads (shortCircuit c op left right) p fun l q =>
      SuppliesFrom c k False nested n l.before l.value.occurrences q := by
  have hle := hleft.1
  have hle' := hright.1
  unfold shortCircuit
  by_cases hempty : right.before = []
  · simp only [hempty, List.isEmpty_nil, if_true]
    rw [hempty] at hright
    refine .pure ⟨by omega, ?_⟩
    have hboth := hleft.2.seq (hright.2.behind _) (by omega)
    simp only [stmtsOccurrences, List.append_nil] at hboth
    exact hboth.mono (fun hd => hd) (fun hn => hn) (by omega)
  · simp only [List.isEmpty_iff, hempty, if_false]
    refine (Leads.newTemporary c p).bind ?_
    rintro temporary q ⟨rfl, rfl⟩
    refine .pure ⟨by omega, ?_⟩
    -- the declaration of the temporary, its test, and the right operand with the assignment
    have hvar := hleft.2.seq (.var (some left.value) p hleft.2.fits) (by omega)
    have htest := hvar.append (fits_append.mp hvar.fits).2
    have hoperand := htest.seq (hright.2.behind _) (by omega)
    obtain ⟨⟨-, hname⟩, hvalue⟩ : (_ ∧ _) ∧ _ := by simpa only [fits_append] using hoperand.fits
    have hassign := hoperand.append (fits_append.mpr ⟨hname, hvalue⟩)
    have hdone : Supplies c k False nested (n ≤ k ∧ k < p + 1) _ [.name (c.temporaryName p)] :=
      (hassign.mono (fun hd => hd) (fun hn => hn) (by omega)).values (by
        simp only [fits_append]
        exact fun h => h.1.2)
    simpa only [Script.stmtsOccurrences_append, stmtsOccurrences, Script.Stmt.var,
      Script.Stmt.occurrences, Script.bindingsOccurrences, Script.optionalOccurrences,
      Script.elseOccurrences, Script.Expr.set, Script.Expr.occurrences, continuesOn_occurrences,
      List.append_nil, List.append_assoc, List.cons_append, List.nil_append] using hdone

/-- So do choices. -/
lemma leads_choose {condition whenTrue whenFalse : Lowered} {n m p q : Nat}
    (hcondition : SuppliesFrom c k False nested n condition.before condition.value.occurrences m)
    (htrue : SuppliesFrom c k False nested m whenTrue.before whenTrue.value.occurrences p)
    (hfalse : SuppliesFrom c k False nested p whenFalse.before whenFalse.value.occurrences q) :
    Leads (choose c condition whenTrue whenFalse) q fun l r =>
      SuppliesFrom c k False nested n l.before l.value.occurrences r := by
  have hle := hcondition.1
  have hle' := htrue.1
  have hle'' := hfalse.1
  unfold choose
  by_cases hempty : whenTrue.before = [] ∧ whenFalse.before = []
  · simp only [hempty.1, hempty.2, List.isEmpty_nil, Bool.and_self, if_true]
    rw [hempty.1] at htrue
    rw [hempty.2] at hfalse
    refine .pure ⟨by omega, ?_⟩
    have hthen := hcondition.2.seq (htrue.2.behind _) (by omega)
    have hall := hthen.seq (hfalse.2.behind _) (by omega)
    simp only [stmtsOccurrences, List.append_nil, List.append_assoc] at hall
    exact hall.mono (fun hd => hd) (fun hn => hn) (by omega)
  · have hbranch : (whenTrue.before.isEmpty && whenFalse.before.isEmpty) = false := by
      simpa [List.isEmpty_iff] using hempty
    simp only [hbranch, Bool.false_eq_true, if_false]
    refine (Leads.newTemporary c q).bind ?_
    rintro temporary r ⟨rfl, rfl⟩
    refine .pure ⟨by omega, ?_⟩
    -- the declaration of the temporary, the condition, and both branches with their assignments
    have hvar := hcondition.2.seq (.var none q fits_nil) (by omega)
    obtain ⟨hvalue, hname⟩ := fits_append.mp hvar.fits
    have htest := hvar.append hvalue
    have hthen := htest.seq (htrue.2.behind _) (by omega)
    obtain ⟨⟨-, hname⟩, hvalue⟩ : (_ ∧ _) ∧ _ := by simpa only [fits_append] using hthen.fits
    have hthen := hthen.append (fits_append.mpr ⟨hname, hvalue⟩)
    have helse := hthen.seq (hfalse.2.behind _) (by omega)
    obtain ⟨⟨⟨-, hname⟩, -⟩, hvalue⟩ : ((_ ∧ _) ∧ _) ∧ _ := by
      simpa only [fits_append] using helse.fits
    have helse := helse.append (fits_append.mpr ⟨hname, hvalue⟩)
    have hdone : Supplies c k False nested (n ≤ k ∧ k < q + 1) _ [.name (c.temporaryName q)] :=
      (helse.mono (fun hd => hd) (fun hn => hn) (by omega)).values (by
        simp only [fits_append]
        exact fun h => h.1.1.2)
    simpa only [Script.stmtsOccurrences_append, stmtsOccurrences, Script.Stmt.var,
      Script.Stmt.occurrences, Script.bindingsOccurrences, Script.optionalOccurrences,
      Script.elseOccurrences, Script.Expr.set, Script.Expr.occurrences,
      List.append_nil, List.append_assoc, List.cons_append, List.nil_append] using hdone

/-! ## Strict expressions -/

/-- A strict expression is completed from operands that fit in. -/
lemma leads_complete {e : Source.Expr} {operands : Operands} {n m : Nat}
    (h : SuppliesFrom c k False nested n operands.before (exprsOccurrences operands.values) m)
    (hnames : c.temporaryName k ∉ c.identifiers e) (important : Bool) :
    Leads (complete c e important operands) m fun l p =>
      SuppliesFrom c k False nested n l.before l.value.occurrences p := by
  have hvalues := h.2.fits
  have hfirst := hvalues.headD
  have hsecond := hvalues.tail.headD
  have hreceiver : ∀ {target : Option Source.Expr} {id : MemberId},
      (target = none → c.identifiers e = c.receiverRoots id) →
      target = none → c.temporaryName k ∉ c.receiverRoots id := by
    intro target id heq htarget
    rw [← heq htarget]
    exact hnames
  unfold complete
  split
  · exact .pure (h.fit (by cases ‹Source.Constant› <;> exact fits_nil) (Nat.le_refl _))
  · rename_i id
    have hname : c.temporaryName k ≠ c.variableName id := by
      simpa [Context.identifiers] using hnames
    exact ((composed_readVariable c id).leads_of (fits_readVariable hname) m).bind fun e p he =>
      .pure (h.fit he.2 he.1)
  · refine ((composed_placeReceiver c _ _ _).leads_of
      (fits_placeReceiver hvalues (hreceiver (by rintro rfl; rfl))) m).bind
      fun object p hobject => ?_
    refine ((composed_fieldName c _).leads p).bind fun name q hq => ?_
    exact .pure (h.fit hobject.2 (Nat.le_trans hobject.1 hq))
  · refine ((composed_placeReceiver c _ _ _).leads_of
      (fits_placeReceiver hvalues (hreceiver (by rintro rfl; rfl))) m).bind
      fun object p hobject => ?_
    refine ((composed_getProperty c _ _ _).leads_of
      (fits_getProperty hobject.2 fits_nil _) p).bind fun e q he => ?_
    exact .pure (h.fit he.2 (Nat.le_trans hobject.1 he.1))
  · refine ((composed_getProperty c _ _ _).leads_of
      (fits_getProperty hfirst hvalues.tail _) m).bind fun e p he => ?_
    exact .pure (h.fit he.2 he.1)
  · exact .pure (h.fit (fits_append.mpr ⟨hfirst, hsecond⟩) (Nat.le_refl _))
  · refine ((composed_placeReceiver c _ _ _).leads_of
      (fits_placeReceiver hvalues (hreceiver (by rintro rfl; rfl))) m).bind
      fun object p hobject => ?_
    refine ((composed_methodName c _).leads p).bind fun name q hq => ?_
    refine .pure (h.fit (fits_append.mpr ⟨hobject.2, ?_⟩) (Nat.le_trans hobject.1 hq))
    split
    · exact hvalues.tail
    · exact hvalues
  · exact .pure (h.fit (fits_append.mpr ⟨hfirst, hvalues.tail⟩) (Nat.le_refl _))
  · rename_i id arguments
    have hname : c.temporaryName k ≠ c.typeRoot (c.memberOf id).declaringType := by
      simpa [Context.identifiers] using hnames
    refine ((tells_createObject False.elim _).composed.leads_of
      (fits_createObject hvalues hname) m).bind fun e p he => ?_
    exact .pure (h.fit he.2 he.1)
  · exact .pure (h.fit hvalues (Nat.le_refl _))
  · refine .pure (h.fit ?_ (Nat.le_refl _))
    rw [combine_occurrences]
    exact fits_append.mpr ⟨hfirst, hsecond⟩
  · exact .pure (h.fit hfirst (Nat.le_refl _))
  · refine ((composed_placeOf c _ _).leads_of
      (fits_placeOf hvalues.dropLast (by simpa only [Context.identifiers] using hnames)) m).bind
      fun place p hplace => ?_
    refine (leads_assignPlace hplace.2 hvalues.last _ _ _ important p).bind
      fun stored q hstored => ?_
    exact .pure ((h.seq (hstored.from_le hplace.1)).values fun h => (fits_append.mp h).2)
  · refine ((composed_placeOf c _ _).leads_of
      (fits_placeOf hvalues (by simpa only [Context.identifiers] using hnames)) m).bind
      fun place p hplace => ?_
    refine (leads_incrementPlace hplace.2 _ important p).bind fun stored q hstored => ?_
    exact .pure ((h.seq (hstored.from_le hplace.1)).values fun h => (fits_append.mp h).2)
  all_goals exact .pure (h.fit fits_nil (Nat.le_refl _))

/-! ## Closed results -/

/-- The statements declare the temporary if they or their values use it.  If functions inside use
it, they do not. -/
def Closed (c : Context) (k n : Nat) (before : List Script.Stmt) (values : List Occurrence)
    (m : Nat) : Prop :=
  SuppliesFrom c k False (n ≤ k ∧ k < m ∧ timesDeclared c k (stmtsOccurrences before) = 0) n before
    values m

namespace Closed

variable {n m p : Nat} {b b' : List Script.Stmt} {v v' : List Occurrence}

lemma supplies (h : Closed c k n b v m)
    (hnested : n ≤ k → k < m → timesDeclared c k (stmtsOccurrences b) = 0 → nested) :
    SuppliesFrom c k False nested n b v m :=
  ⟨h.1, h.2.mono (fun hd => hd) (fun hn => hnested hn.1 hn.2.1 hn.2.2) fun hr => hr⟩

/-- The numbers that are declared lie in the range. -/
lemma mem_range (h : Closed c k n b v m) (hb : timesDeclared c k (stmtsOccurrences b) ≠ 0) :
    n ≤ k ∧ k < m :=
  h.2.range hb

lemma nil (hle : n ≤ m) : Closed c k n [] [] m :=
  .of_fits fits_nil hle

lemma seq (h : Closed c k n b v m) (h' : Closed c k m b' v' p) :
    Closed c k n (b ++ b') (v ++ v') p := by
  have hle := h.1
  have hle' := h'.1
  have hb := h.mem_range
  have hb' := h'.mem_range
  have htimes : timesDeclared c k (stmtsOccurrences (b ++ b')) =
      timesDeclared c k (stmtsOccurrences b) + timesDeclared c k (stmtsOccurrences b') := by
    rw [Script.stmtsOccurrences_append, timesDeclared_append]
  refine (h.supplies ?_).seq ?_
  · omega
  · have hsecond : SuppliesFrom c k False (n ≤ k ∧ k < p ∧
        timesDeclared c k (stmtsOccurrences (b ++ b')) = 0) m b' v' p := h'.supplies (by omega)
    exact ⟨hsecond.1, hsecond.2.behind _⟩

/-- The counter may have started lower. -/
lemma from_le (h : Closed c k m b v p) (hle : n ≤ m) : Closed c k n b v p :=
  (h.supplies (by omega)).from_le hle

/-- Other statements with the same occurrences, up to some behind them that use the values only. -/
lemma wrap (h : Closed c k n b v m) (os : List Occurrence)
    (hoccurrences : stmtsOccurrences b' = stmtsOccurrences b ++ os)
    (hos : ∀ {d n : Prop}, Fits c k d n v → Fits c k d n os) : Closed c k n b' [] m := by
  have hfits := hos h.2.fits
  have htimes : timesDeclared c k (stmtsOccurrences b') = timesDeclared c k (stmtsOccurrences b) := by
    rw [hoccurrences, timesDeclared_append, hfits.timesDeclared_eq_zero, Nat.add_zero]
  refine ⟨h.1, ?_⟩
  rw [htimes, hoccurrences]
  exact (h.2.append hfits).values fun _ => fits_nil

end Closed

/-- Statements that do not declare the temporary do not do so in any range. -/
lemma SuppliesFrom.anywhere {n m : Nat} {b : List Script.Stmt} {v : List Occurrence}
    (h : SuppliesFrom c k declared nested n b v m)
    (hb : timesDeclared c k (stmtsOccurrences b) = 0) (p : Nat) :
    SuppliesFrom c k declared nested p b v p :=
  ⟨Nat.le_refl _, h.2.scan, h.2.once, fun hne => absurd hb hne, h.2.fits⟩

/-- What is emitted from closed parts is closed.  If the temporary belongs to a function inside the
parts, they do not declare it, and so may be counted to any range. -/
lemma leads_closed {α : Type} {step : Lower α} {before : α → List Script.Stmt}
    {values : α → List Occurrence} {n p : Nat} (hnested : nested → n ≤ k ∧ k < p)
    (h : Leads step p fun r q => SuppliesFrom c k False nested n (before r) (values r) q)
    (h' : nested → Leads step p fun r q => SuppliesFrom c k False nested p (before r) (values r) q) :
    Leads step p fun r q => Closed c k n (before r) (values r) q := by
  intro s hs
  refine ⟨(h s hs).1, (h s hs).2.mono (fun hd => hd) ?_ fun hr => hr⟩
  intro hn
  have hle := (h' hn s hs).1
  have hrange := (h' hn s hs).2.range
  have hk := hnested hn
  omega

/-! ## Functions -/

lemma leads_lambdaParameters {parameters : List VariableId}
    (h : c.temporaryName k ∉ parameters.map c.variableName) (n : Nat) :
    Leads (lambdaParameters c parameters) n fun head m =>
      n ≤ m ∧ Fits c k declared nested (head.1.map .name ++ stmtsOccurrences head.2) := by
  induction parameters generalizing n with
  | nil => exact .pure ⟨Nat.le_refl _, fits_nil⟩
  | cons id rest ih =>
    rw [List.map_cons, List.mem_cons, not_or] at h
    have hname : ∀ x, c.variableName id = x → Fits c k declared nested [.name x] :=
      fun x hx => fits_name fun hk => absurd (hk ▸ hx).symm h.1
    unfold lambdaParameters
    split
    · rename_i v hv
      have hv : Fits c k declared nested [.name v.name] :=
        hname _ (by simp only [Context.variableName, hv, Option.map_some, Option.getD_some])
      refine (ih h.2 n).bind fun head m hhead => .pure ⟨hhead.1, ?_⟩
      obtain ⟨hnames, hentry⟩ := fits_append.mp hhead.2
      have hown : Fits c k declared nested (stmtsOccurrences (if v.byReference then
          [Script.Stmt.expr (.set (.ident v.name) (container c (.ident v.name)))] else [])) := by
        split
        · exact fits_append.mpr ⟨fits_append.mpr ⟨hv, fits_append.mpr ⟨hv, fits_nil⟩⟩, fits_nil⟩
        · exact fits_nil
      rw [Script.stmtsOccurrences_append]
      exact fits_append.mpr ⟨fits_append (a := [_]).mpr ⟨hv, hnames⟩, fits_append.mpr ⟨hown, hentry⟩⟩
    · rename_i hv
      have hv : Fits c k declared nested [.name (unknownVariable id)] :=
        hname _ (by simp only [Context.variableName, hv, Option.map_none, Option.getD_none])
      refine ((composed_internalError (c := c) _).leads n).bind fun _ m hm => ?_
      refine (ih h.2 m).bind fun head p hhead => .pure ⟨Nat.le_trans hm hhead.1, ?_⟩
      obtain ⟨hnames, hentry⟩ := fits_append.mp hhead.2
      exact fits_append.mpr ⟨fits_append (a := [_]).mpr ⟨hv, hnames⟩, hentry⟩

/-- A function with a closed body can stand anywhere: the temporaries in it are its own. -/
lemma fits_function {names : List String} {entry body : List Script.Stmt} {n m : Nat}
    (hhead : Fits c k False False (names.map .name ++ stmtsOccurrences entry))
    (hbody : Closed c k n body [] m) :
    Fits c k False (n ≤ k ∧ k < m)
      (Script.Expr.function none names (entry ++ body)).occurrences := by
  have hsplit : Script.functionOccurrences names (entry ++ body) =
      (names.map .name ++ stmtsOccurrences entry) ++ stmtsOccurrences body := by
    rw [Script.functionOccurrences, Script.stmtsOccurrences_append, List.append_assoc]
  have htimes : timesDeclared c k (Script.functionOccurrences names (entry ++ body)) =
      timesDeclared c k (stmtsOccurrences body) := by
    rw [hsplit, timesDeclared_append, hhead.timesDeclared_eq_zero, Nat.zero_add]
  have hscan : Scan (c.temporaryName k) False
      (n ≤ k ∧ k < m ∧ timesDeclared c k (Script.functionOccurrences names (entry ++ body)) = 0)
      (Script.functionOccurrences names (entry ++ body)) := by
    rw [htimes, hsplit]
    refine Script.scan_append.mpr ⟨Script.scan_of_ready (hhead.mono (fun hd => hd) False.elim), ?_⟩
    exact hbody.2.scan.mono False.elim fun hn => hn
  have honce := hbody.2.once
  have hrange := hbody.2.range
  rw [← htimes] at honce hrange
  intro o ho
  obtain rfl := List.mem_singleton.mp ho
  constructor
  · intro inner hinner
    exact (hscan.mono (fun hd => hd) fun hn => hn.2.2).wellScoped_of_encloses honce hinner
  · intro hreach
    rcases hscan.declared_or_nested hreach with hdeclared | hnested
    · exact hrange hdeclared
    · exact ⟨hnested.1, hnested.2.1⟩

/-- What the step yields is closed. -/
def ClosesValue (c : Context) (k : Nat) (step : Lower Lowered) : Prop :=
  ∀ n, Leads step n fun l m => Closed c k n l.before l.value.occurrences m

/-- The statements that the step yields are closed. -/
def ClosesStmts (c : Context) (k : Nat) (step : Lower (List Script.Stmt)) : Prop :=
  ∀ n, Leads step n fun out m => Closed c k n out [] m

/-- So do lambdas. -/
lemma leads_lambda {body : Source.LambdaBody} {parameters : List VariableId}
    (hbody : ClosesStmts c k (lowerLambdaBody c body))
    (hnames : c.temporaryName k ∉ parameters.map c.variableName) (i : Source.Info) (id : LambdaId)
    (important : Bool) : ClosesValue c k (lowerExpr c (.lambda i id parameters body) important) := by
  intro n
  have hhead : Leads (lambdaHead c id parameters) n fun head m =>
      n ≤ m ∧ Fits c k False False (head.1.map .name ++ stmtsOccurrences head.2) := by
    unfold lambdaHead
    dsimp only
    split
    · refine ((composed_internalError (c := c) _).leads n).bind fun _ m hm => ?_
      exact (leads_lambdaParameters hnames m).mono fun head p hp => ⟨Nat.le_trans hm hp.1, hp.2⟩
    · exact leads_lambdaParameters hnames n
  rw [lowerExpr_lambda]
  refine hhead.bind fun head m hm => ?_
  refine ((composed_currentLocation (c := c)).leads m).bind fun location p hp => ?_
  refine (hbody p).bind fun statements q hstatements => ?_
  refine ((composed_setLocation (c := c) location).leads q).bind fun _ r hr => .pure ?_
  have hle := hm.1
  have hle' := hstatements.1
  refine .of_fits ?_ (by omega)
  have hfunction := (fits_function hm.2 hstatements).mono (fun hd => hd)
    (fun hk => (show n ≤ k ∧ k < r ∧ timesDeclared c k (stmtsOccurrences []) = 0 from
      ⟨by omega, by omega, rfl⟩))
  unfold lambdaValue bindThis
  dsimp only
  split
  · exact fits_append.mpr ⟨hfunction, fits_nil⟩
  · exact hfunction

/-! ## Closed expressions -/

theorem Closed.add {operands : Operands} {operand : Lowered} {n m p : Nat}
    (h : Closed c k n operands.before (exprsOccurrences operands.values) m)
    (h' : Closed c k m operand.before operand.value.occurrences p) :
    Leads (operands.add c operand) p fun r q =>
      Closed c k n r.before (exprsOccurrences r.values) q := by
  have hle := h.1
  have hle' := h'.1
  have hb := h.mem_range
  have hb' := h'.mem_range
  let nested : Prop := n ≤ k ∧ k < p ∧ timesDeclared c k (stmtsOccurrences operands.before) = 0 ∧
    timesDeclared c k (stmtsOccurrences operand.before) = 0
  have hsupplies : SuppliesFrom c k False nested n operands.before (exprsOccurrences operands.values) m :=
    h.supplies (by omega)
  have hsupplies' : SuppliesFrom c k False nested m operand.before operand.value.occurrences p :=
    h'.supplies (by omega)
  refine leads_closed ?_ (leads_add hsupplies hsupplies') ?_
  · exact fun hn => ⟨hn.1, hn.2.1⟩
  · exact fun hn => leads_add (hsupplies.anywhere hn.2.2.1 p) (hsupplies'.anywhere hn.2.2.2 p)

lemma Closed.shortCircuit {left right : Lowered} {n m p : Nat}
    (h : Closed c k n left.before left.value.occurrences m)
    (h' : Closed c k m right.before right.value.occurrences p) (op : Source.BinaryOp) :
    Leads (shortCircuit c op left right) p fun l q =>
      Closed c k n l.before l.value.occurrences q := by
  have hle := h.1
  have hle' := h'.1
  have hb := h.mem_range
  have hb' := h'.mem_range
  let nested : Prop := n ≤ k ∧ k < p ∧ timesDeclared c k (stmtsOccurrences left.before) = 0 ∧
    timesDeclared c k (stmtsOccurrences right.before) = 0
  have hleft : SuppliesFrom c k False nested n left.before left.value.occurrences m :=
    h.supplies (by omega)
  have hright : SuppliesFrom c k False nested m right.before right.value.occurrences p :=
    h'.supplies (by omega)
  refine leads_closed ?_ (leads_shortCircuit hleft hright op) ?_
  · exact fun hn => ⟨hn.1, hn.2.1⟩
  · exact fun hn => leads_shortCircuit (hleft.anywhere hn.2.2.1 p) (hright.anywhere hn.2.2.2 p) op

lemma Closed.choose {condition whenTrue whenFalse : Lowered} {n m p q : Nat}
    (h : Closed c k n condition.before condition.value.occurrences m)
    (h' : Closed c k m whenTrue.before whenTrue.value.occurrences p)
    (h'' : Closed c k p whenFalse.before whenFalse.value.occurrences q) :
    Leads (choose c condition whenTrue whenFalse) q fun l r =>
      Closed c k n l.before l.value.occurrences r := by
  have hle := h.1
  have hle' := h'.1
  have hle'' := h''.1
  have hb := h.mem_range
  have hb' := h'.mem_range
  have hb'' := h''.mem_range
  let nested : Prop := n ≤ k ∧ k < q ∧
    timesDeclared c k (stmtsOccurrences condition.before) = 0 ∧
    timesDeclared c k (stmtsOccurrences whenTrue.before) = 0 ∧
    timesDeclared c k (stmtsOccurrences whenFalse.before) = 0
  have hcondition : SuppliesFrom c k False nested n condition.before condition.value.occurrences m :=
    h.supplies (by omega)
  have htrue : SuppliesFrom c k False nested m whenTrue.before whenTrue.value.occurrences p :=
    h'.supplies (by omega)
  have hfalse : SuppliesFrom c k False nested p whenFalse.before whenFalse.value.occurrences q :=
    h''.supplies (by omega)
  refine leads_closed ?_ (leads_choose hcondition htrue hfalse) ?_
  · exact fun hn => ⟨hn.1, hn.2.1⟩
  · rintro ⟨-, -, hcondition₀, htrue₀, hfalse₀⟩
    exact leads_choose (hcondition.anywhere hcondition₀ q) (htrue.anywhere htrue₀ q)
      (hfalse.anywhere hfalse₀ q)

lemma Closed.complete {e : Source.Expr} {operands : Operands} {n m : Nat}
    (h : Closed c k n operands.before (exprsOccurrences operands.values) m)
    (hnames : c.temporaryName k ∉ c.identifiers e) (important : Bool) :
    Leads (complete c e important operands) m fun l p =>
      Closed c k n l.before l.value.occurrences p := by
  refine leads_closed ?_ (leads_complete h hnames important) ?_
  · exact fun hn => ⟨hn.1, hn.2.1⟩
  · exact fun hn => leads_complete (h.anywhere hn.2.2 m) hnames important

end ScriptCompiler.Lowering
