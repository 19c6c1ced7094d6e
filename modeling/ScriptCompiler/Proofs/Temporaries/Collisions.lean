import Mathlib.Data.Nat.Basic
import ScriptCompiler.Proofs.Diagnostics.Findings
import ScriptCompiler.Proofs.Temporaries.Occurrences
import ScriptCompiler.Proofs.Traversal.Keeping

/-!
# Variables that are named like temporaries

The name of a temporary is the prefix of the options followed by its number, and nothing keeps a
variable of the body from having such a name.  A variable is captured exactly if its name is that of
a temporary that is given out (`lowerStmt_captures_iff`).  Then the name counts as stable, although
the variable can be assigned, and the declaration of the temporary is one of the variable.

All other variables are safe: they are never taken for temporaries, and the statements that are
hoisted out of expressions do not declare them, because these declare temporaries only
(`declares_lowerExpr`).
-/

namespace ScriptCompiler

namespace Lowering

open Script (Occurrence stmtsOccurrences)

variable {c : Context}

/-! ## Names that hoisted statements declare -/

/-- Expressions declare nothing. -/
lemma not_declared_mem_occurrences (x : String) (e : Script.Expr) :
    Occurrence.declared x ∉ e.occurrences := by
  intro h
  have hzero := List.countP_eq_zero.mp (e.declarations_occurrences x) _ h
  simp [Occurrence.declares] at hzero

/-- Every name that the statements declare satisfies `T`. -/
def Declares (T : String → Prop) (b : List Script.Stmt) : Prop :=
  ∀ x, Occurrence.declared x ∈ stmtsOccurrences b → T x

namespace Declares

variable {T T' : String → Prop} {b b' : List Script.Stmt}

lemma nil : Declares T [] :=
  fun _ hx => by cases hx

lemma mono (h : Declares T b) (hT : ∀ x, T x → T' x) : Declares T' b :=
  fun x hx => hT x (h x hx)

lemma append (h : Declares T b) (h' : Declares T b') : Declares T (b ++ b') := by
  intro x hx
  rw [Script.stmtsOccurrences_append] at hx
  exact (List.mem_append.mp hx).elim (h x) (h' x)

lemma block (h : Declares T b) : Declares T [.block b] := by
  intro x hx
  simp only [stmtsOccurrences, Script.Stmt.occurrences, List.append_nil] at hx
  exact h x hx

lemma expr (e : Script.Expr) : Declares T [.expr e] := by
  intro x hx
  simp only [stmtsOccurrences, Script.Stmt.occurrences, List.append_nil] at hx
  exact absurd hx (not_declared_mem_occurrences x e)

lemma var {name : String} (h : T name) (initializer : Option Script.Expr) :
    Declares T [.var name initializer] := by
  intro x hx
  simp only [stmtsOccurrences, Script.Stmt.var, Script.Stmt.occurrences,
    Script.bindingsOccurrences, List.append_nil, List.mem_cons, Occurrence.declared.injEq] at hx
  rcases hx with rfl | hx
  · exact h
  · cases initializer with
    | none => cases hx
    | some e => exact absurd hx (not_declared_mem_occurrences x e)

lemma branch (e : Script.Expr) {s : Script.Stmt} {o : Option Script.Stmt} (h : Declares T [s])
    (h' : ∀ t ∈ o, Declares T [t]) : Declares T [.branch e s o] := by
  intro x hx
  simp only [stmtsOccurrences, Script.Stmt.occurrences, List.append_nil, List.mem_append] at hx
  rcases hx with hx | hx | hx
  · exact absurd hx (not_declared_mem_occurrences x e)
  · exact h x (List.mem_append_left _ hx)
  · cases o with
    | none => cases hx
    | some t => exact h' t rfl x (List.mem_append_left _ hx)

end Declares

variable {w : Visit × State} {s : State}

/-- The name is that of a temporary with a number below `m`. -/
def Context.GivenBelow (c : Context) (m : Nat) (x : String) : Prop :=
  ∃ k, 1 ≤ k ∧ k < m ∧ x = c.temporaryName k

lemma Context.GivenBelow.mono {m m' : Nat} {x : String} (h : c.GivenBelow m x) (hle : m ≤ m') :
    c.GivenBelow m' x := by
  obtain ⟨k, hk, hlt, hname⟩ := h
  exact ⟨k, hk, by omega, hname⟩

/-- The statements that are hoisted out of expressions declare temporaries that were given out. -/
def Invariant.hoists (c : Context) : Invariant Nat where
  At m s := s.next = m ∧ 1 ≤ m
  Holds _ _ _ := True
  Stmts m hoisted b := hoisted = true → Declares (c.GivenBelow m) b
  Bound _ _ := True

/-- Lowering declares given temporaries only. -/
lemma kept_hoists (c : Context) : (Invariant.hoists c).Kept c fun _ => True := by
  have hcomposed : ∀ {α : Type} {step : Lower α}, Composed c step → ∀ (m : Nat) (Q : α → Nat → Prop),
      (∀ a m', Q a m') → (Invariant.hoists c).Tracks step m Q := by
    rintro α step hstep m Q hQ s ⟨rfl, hm⟩
    exact ⟨_, hstep.next_le s, ⟨rfl, Nat.le_trans hm (hstep.next_le s)⟩, hQ _ _⟩
  exact {
    holds_mono _ _ := trivial
    stmts_mono h hle hhoisted := (h hhoisted).mono fun _ hx => hx.mono hle
    bound_mono _ _ := trivial
    composed h m := hcomposed h m _ fun _ _ => trivial
    newTemporary := by
      rintro m s ⟨rfl, hm⟩
      refine ⟨s.next + 1, Nat.le_succ _, ⟨rfl, Nat.le_succ_of_le hm⟩, trivial, fun _ _ _ => ?_⟩
      exact .var ⟨s.next, hm, Nat.lt_succ_self _, rfl⟩ _
    typeReference id m := hcomposed (composed_typeReference c id) m _ fun _ _ => trivial
    readVariable id m := hcomposed (composed_readVariable c id) m _ fun _ _ => trivial
    passReference m _ _ _ := hcomposed (composed_passReference c _) m _ fun _ _ => trivial
    captures h := .inl h
    this _ _ _ := trivial
    lambda _ _ _ _ := trivial
    passes _ := trivial
    literal _ := trivial
    member _ := trivial
    index _ _ := trivial
    call _ _ := trivial
    new _ _ := trivial
    array _ := trivial
    binary _ _ := trivial
    unary _ := trivial
    update _ := trivial
    assign _ _ := trivial
    conditional _ _ _ := trivial
    nil _ := .nil
    append h h' hhoisted := (h hhoisted).append (h' hhoisted)
    emitted _ hhoisted := by cases hhoisted
    expr _ _ := .expr _
    block h hhoisted := (h hhoisted).block
    branch _ h h' hhoisted := .branch _ (h hhoisted) fun t ht => h' t ht hhoisted
    bare _ hhoisted := by cases hhoisted
    whileLoop _ _ hhoisted := by cases hhoisted
    doWhile _ _ := hcomposed (composed_doWhileStmts _ _) _ _ fun _ _ hhoisted => by cases hhoisted
    returns _ hhoisted := by cases hhoisted
    throw _ hhoisted := by cases hhoisted
    declare _ hhoisted := by cases hhoisted
    bound_nil := trivial
    bound_append _ _ := trivial
    bindingOf _ _ := trivial }

/-- The statements that are hoisted out of an expression declare temporaries only. -/
theorem declares_lowerExpr (c : Context) (e : Source.Expr) (important : Bool) (hs : 1 ≤ s.next) :
    Declares (c.GivenBelow (lowerExpr c e important s).2.next)
      (lowerExpr c e important s).1.before := by
  obtain ⟨_, -, ⟨rfl, -⟩, hsound⟩ :=
    (kept_hoists c).lowering.1 e (fun _ _ => trivial) important s.next s ⟨rfl, hs⟩
  exact hsound.before rfl

/-! ## The course of a run -/

/-- A run may stand at `s` and later at `s'`: numbers are not handed back, and the mark for something
outside the program stays. -/
structure State.Precedes (s s' : State) : Prop where
  next : s.next ≤ s'.next
  dangling : s.dangling = true → s'.dangling = true

lemma State.Precedes.same {s s' : State} (hnext : s.next = s'.next)
    (hdangling : s.dangling = s'.dangling) : s.Precedes s' :=
  ⟨Nat.le_of_eq hnext, fun hs => hdangling.symm.trans hs⟩

/-- Later states follow in turn. -/
lemma State.Precedes.trans {s s' s'' : State} (h : s.Precedes s') (h' : s'.Precedes s'') :
    s.Precedes s'' :=
  ⟨Nat.le_trans h.next h'.next, fun hs => h'.dangling (h.dangling hs)⟩

/-- A composed step goes forward. -/
lemma Composed.precedes {α : Type} {step : Lower α} (h : Composed c step) (s : State) :
    s.Precedes (step s).2 := by
  obtain ⟨names, hcalls⟩ := h s
  exact ⟨h.next_le s, hcalls.dangling⟩

/-- The visit is made on the way from `s` to `s'`. -/
def MadeBetween (c : Context) (s s' : State) (w : Visit × State) : Prop :=
  s.Precedes w.2 ∧ (w.1.after c w.2).Precedes s'

/-- What is made in between is made in a wider span. -/
lemma MadeBetween.widen {s s' r r' : State} (h : MadeBetween c s s' w) (hr : r.Precedes s)
    (hr' : s'.Precedes r') : MadeBetween c r r' w :=
  ⟨hr.trans h.1, h.2.trans hr'⟩

/-- A visit goes forward. -/
lemma Visit.precedes_after (c : Context) (v : Visit) (s : State) : s.Precedes (v.after c s) := by
  cases v with
  | expr e important => exact (composed_lowerExpr c e important).precedes s
  | stmt t spliced => exact (composed_lowerStmt c t spliced).precedes s

/-- The state behind visits that follow each other. -/
def afterAll (c : Context) (vs : List Visit) (s : State) : State :=
  vs.foldl (fun s v => v.after c s) s

lemma precedes_afterAll (vs : List Visit) (s : State) : s.Precedes (afterAll c vs s) := by
  induction vs generalizing s with
  | nil => exact .same rfl rfl
  | cons v rest ih => exact (v.precedes_after c s).trans (ih _)

/-- Visits in sequence stay in its span. -/
lemma madeBetween_of_mem_inSequence {vs : List Visit} (h : w ∈ inSequence c vs s) :
    MadeBetween c s (afterAll c vs s) w := by
  induction vs generalizing s with
  | nil => cases h
  | cons v rest ih =>
    rcases List.mem_cons.mp h with rfl | h
    · exact ⟨.same rfl rfl, precedes_afterAll rest _⟩
    · exact (ih h).widen (v.precedes_after c s) (.same rfl rfl)

lemma precedes_lowerArguments (arguments : List Source.Argument) (operands : Operands)
    (s : State) : s.Precedes (lowerArguments c arguments operands s).2 :=
  (composed_lowerArguments c arguments operands).precedes s

lemma precedes_lowerDeclarators (declarators : List Source.Declarator)
    (batch : List Script.Binding) (s : State) :
    s.Precedes (lowerDeclarators c declarators batch s).2 :=
  (composed_lowerDeclarators c declarators batch).precedes s

/-- So do those of arguments. -/
lemma madeBetween_of_mem_argumentVisits {arguments : List Source.Argument} {operands : Operands}
    (h : w ∈ argumentVisits c arguments operands s) :
    MadeBetween c s (lowerArguments c arguments operands s).2 w := by
  induction arguments generalizing operands s with
  | nil => cases h
  | cons a rest ih =>
    -- the operand is lowered in `s` and added in the state behind it
    let lowered := lowerOperand c a s
    let added := operands.add c lowered.1 lowered.2
    have hadded : lowered.2.Precedes added.2 := (composed_add c operands lowered.1).precedes _
    have hrun : lowerArguments c (a :: rest) operands s = lowerArguments c rest added.1 added.2 := by
      rw [lowerArguments_cons]
      rfl
    rw [hrun]
    rcases List.mem_append.mp h with h | h
    · cases hmode : a.mode.isReference with
      | true => simp [hmode] at h
      | false =>
        obtain rfl : w = (.expr a.value true, s) := by simpa [hmode] using h
        have hlowered : lowered = lowerExpr c a.value true s := by
          simp only [lowered, lowerOperand, hmode, Bool.false_eq_true, if_false]
        refine ⟨.same rfl rfl, State.Precedes.trans ?_ (precedes_lowerArguments rest added.1 added.2)⟩
        rw [hlowered] at hadded
        exact hadded
    · refine (ih h).widen (State.Precedes.trans ?_ hadded) (.same rfl rfl)
      unfold lowered lowerOperand
      split
      · exact ((composed_passReference c a.value).map _).precedes s
      · exact (composed_lowerExpr c a.value true).precedes s

/-- Behind the first declarator the others are lowered, with one batch or another. -/
lemma lowerDeclarators_cons_state (d : Source.Declarator) (rest : List Source.Declarator)
    (batch : List Script.Binding) (s : State) :
    ∃ batch', (lowerDeclarators c (d :: rest) batch s).2 =
      (lowerDeclarators c rest batch' (lowerDeclarator c d s).2).2 := by
  have hrun : ∀ next : Option (Variable × Option Lowered) → Lower (List Script.Stmt),
      (lowerDeclarator c d >>= next) s =
        next (lowerDeclarator c d s).1 (lowerDeclarator c d s).2 := fun _ => rfl
  rw [lowerDeclarators_cons, hrun]
  cases (lowerDeclarator c d s).1 with
  | none => exact ⟨_, rfl⟩
  | some found =>
    obtain ⟨v, value⟩ := found
    dsimp only
    cases value.elim [] (·.before) with
    | nil => exact ⟨_, rfl⟩
    | cons first others => exact ⟨_, rfl⟩

/-- So do those of declarators. -/
lemma madeBetween_of_mem_declaratorVisits {declarators : List Source.Declarator}
    (batch : List Script.Binding) (h : w ∈ declaratorVisits c declarators s) :
    MadeBetween c s (lowerDeclarators c declarators batch s).2 w := by
  induction declarators generalizing batch s with
  | nil => cases h
  | cons d rest ih =>
    obtain ⟨batch', hrun⟩ := lowerDeclarators_cons_state (c := c) d rest batch s
    obtain ⟨id, name, initializer, span⟩ := d
    have hle := (composed_lowerDeclarator c (.mk id name initializer span)).precedes s
    rw [hrun]
    rcases List.mem_append.mp h with h | h
    · cases hv : c.scope.get? id with
      | none => simp [Source.Declarator.id, hv] at h
      | some v =>
        simp only [Source.Declarator.id, hv, Option.isSome_some, if_true] at h
        refine (madeBetween_of_mem_inSequence h).widen (.same rfl rfl)
          (State.Precedes.trans ?_ (precedes_lowerDeclarators rest batch' _))
        rw [lowerDeclarator, hv]
        cases initializer with
        | none => exact .same rfl rfl
        | some e => exact .same rfl rfl
    · exact (ih batch' h).widen hle (.same rfl rfl)

lemma afterAll_stmts (body : List Source.Stmt) (s : State) :
    afterAll c (body.map (.stmt · false)) s = (lowerStmts c body s).2 := by
  induction body generalizing s with
  | nil =>
    unfold lowerStmts
    rfl
  | cons t rest ih =>
    unfold lowerStmts
    exact ih _

/-- A visit is made while the visit around it is. -/
lemma madeBetween_of_mem_visits {v w : Visit × State} (h : w ∈ visits c v) :
    MadeBetween c v.2 (v.1.after c v.2) w := by
  obtain ⟨v, s⟩ := v
  cases v with
  | expr e important =>
    by_cases hstrict : e.isStrict = true
    · rw [visits, exprVisits_strict hstrict] at h
      have hle := (composed_announce (c := c) e).precedes s
      simp only [Visit.after, lowerExpr_strict c hstrict]
      exact (madeBetween_of_mem_argumentVisits h).widen hle
        ((composed_complete c hstrict important _).precedes _)
    · cases e with
      | conditional i condition whenTrue whenFalse =>
        simp only [visits, exprVisits] at h
        refine (madeBetween_of_mem_inSequence h).widen (.same rfl rfl) ?_
        simp only [Visit.after, lowerExpr]
        exact (composed_choose c _ _ _).precedes _
      | lambda i id parameters body =>
        have hhead := (composed_lambdaHead c id parameters).precedes s
        simp only [Visit.after, lowerExpr_lambda]
        cases body with
        | expr value =>
          simp only [visits, exprVisits, List.mem_singleton] at h
          subst h
          refine ⟨hhead, ?_⟩
          unfold lowerLambdaBody
          exact .same rfl rfl
        | block body =>
          simp only [visits, exprVisits] at h
          refine (madeBetween_of_mem_inSequence h).widen hhead ?_
          rw [afterAll_stmts]
          unfold lowerLambdaBody
          exact .same rfl rfl
      | binary i op left right =>
        have hop : op.isShortCircuit = true := by simpa [Source.Expr.isStrict] using hstrict
        simp only [visits, exprVisits_lazy i hop] at h
        refine (madeBetween_of_mem_inSequence h).widen (.same rfl rfl) ?_
        simp only [Visit.after, lowerExpr, hop, if_true]
        exact (composed_shortCircuit c op _ _).precedes _
      | _ => exact absurd rfl hstrict
  | stmt t spliced =>
    have hsequence : ∀ {vs : List Visit} {st st' : State}, w ∈ inSequence c vs st →
        s.Precedes st → (afterAll c vs st).Precedes st' → MadeBetween c s st' w :=
      fun hw hst hst' => (madeBetween_of_mem_inSequence hw).widen hst hst'
    simp only [visits, stmtVisits] at h
    simp only [Visit.after]
    cases t with
    | declare span declarators =>
      simp only [lowerStmt]
      exact (madeBetween_of_mem_declaratorVisits [] h).widen (.same rfl rfl) (.same rfl rfl)
    | expr span value =>
      obtain rfl := List.mem_singleton.mp h
      simp only [lowerStmt]
      exact ⟨.same rfl rfl, .same rfl rfl⟩
    | block span body =>
      simp only [lowerStmt]
      cases spliced with
      | true | false =>
        refine hsequence h (.same rfl rfl) ?_
        rw [afterAll_stmts]
        exact .same rfl rfl
    | checked span body | unchecked span body =>
      simp only [lowerStmt]
      refine hsequence h (.same rfl rfl) ?_
      rw [afterAll_stmts]
      exact .same rfl rfl
    | «return» span value | throw span value =>
      refine hsequence h (.same rfl rfl) ?_
      cases value <;> simp only [lowerStmt] <;> exact .same rfl rfl
    | branch span condition thenBranch elseBranch =>
      refine hsequence h (.same rfl rfl) ?_
      cases elseBranch <;> simp only [lowerStmt, lowerElse] <;> exact .same rfl rfl
    | whileLoop span condition body =>
      refine hsequence h (.same rfl rfl) ?_
      simp only [lowerStmt]
      exact .same rfl rfl
    | doWhile span body condition =>
      have hdone : (lowerExpr c condition true (doWhileBody c span body condition s).2).2.Precedes
          (lowerStmt c (.doWhile span body condition) spliced s).2 := by
        rw [lowerStmt_doWhile]
        exact (composed_doWhileStmts (c := c) _ _).precedes _
      have hcondition := (composed_lowerExpr c condition true).precedes
        (doWhileBody c span body condition s).2
      have hbody := (composed_lowerStmt c body true).precedes (setLocation (c.location span) s).2
      have hspan : (lowerStmt c body true (setLocation (c.location span) s).2).2.Precedes
          (doWhileBody c span body condition s).2 := .same rfl rfl
      simp only [List.mem_cons, List.not_mem_nil, or_false] at h
      rcases h with rfl | rfl
      · exact ⟨.same rfl rfl, hspan.trans (hcondition.trans hdone)⟩
      · exact ⟨⟨hbody.next, hbody.dangling⟩, hdone⟩
    | comment | «break» | «continue» | empty | unsupported => cases h

/-- A visit is made while the run that reaches it is. -/
lemma madeBetween_of_reached {v w : Visit × State} (h : Reached c v w) :
    MadeBetween c v.2 (v.1.after c v.2) w := by
  induction h with
  | refl => exact ⟨.same rfl rfl, .same rfl rfl⟩
  | tail _ hstep ih => exact (madeBetween_of_mem_visits hstep).widen ih.1 ih.2

/-! ## Captured variables -/

/-- A name counts as a temporary exactly if it is that of a number already given out. -/
lemma isTemporary_iff {name : String} : s.isTemporary c name = true ↔ c.GivenBelow s.next name := by
  unfold State.isTemporary Context.GivenBelow
  simp only [List.any_eq_true, List.mem_range'_1, beq_iff_eq]
  constructor
  · rintro ⟨k, ⟨hk, hlt⟩, hname⟩
    exact ⟨k, hk, by omega, hname⟩
  · rintro ⟨k, hk, hlt, hname⟩
    exact ⟨k, ⟨hk, by omega⟩, hname⟩

/-- A name that is not given out in a run up to `m` is neither a temporary nor stable before. -/
lemma not_stable_of_le {name : String} {m : Nat} (hle : s.next ≤ m) (h : ¬ c.GivenBelow m name) :
    s.isTemporary c name = false ∧ (isStable c (.ident name) s).1 = false := by
  have hfalse : s.isTemporary c name = false := by
    rw [Bool.eq_false_iff]
    exact fun htrue => h ((isTemporary_iff.mp htrue).mono hle)
  exact ⟨hfalse, hfalse⟩

end Lowering

namespace Session

open Lowering
open Script (Occurrence stmtsOccurrences)

/-- A variable is captured exactly if it is named like a temporary that is given out for the body:
like the prefix with a number between one and the number of temporaries behind it.  Captured
variables count as stable in the end.  All others are never taken for temporaries during the run,
and no statement that is hoisted out of an expression of the body declares them. -/
theorem lowerStmt_captures_iff (s : Session) (b : Body) (r : Reporter) :
    let c := s.context b
    let start : State := { reporter := r }
    let done := (lowerStmt c b.statement true start).2
    ∃ names, Calls c (lowerStmt c b.statement true) start names ∧
      ∀ entry ∈ b.scope.entries,
        (entry.2.name ∈ names ↔ ∃ k, 1 ≤ k ∧ k ≤ names.length ∧
          entry.2.name = s.options.temporaryPrefix ++ toString k) ∧
        (entry.2.name ∈ names ↔ (isStable c (.ident entry.2.name) done).1 = true) ∧
        (entry.2.name ∉ names →
          (∀ st : State, st.next ≤ done.next → st.isTemporary c entry.2.name = false ∧
            (isStable c (.ident entry.2.name) st).1 = false) ∧
          ∀ e important st, Reached c (.stmt b.statement true, start) (.expr e important, st) →
            Occurrence.declared entry.2.name ∉
              stmtsOccurrences (lowerExpr c e important st).1.before) := by
  intro c start done
  obtain ⟨names, hcalls⟩ := composed_lowerStmt c b.statement true start
  obtain ⟨hnext, hnames⟩ := hcalls.names_eq
  have hdone : done.next = 1 + names.length := hnext
  have hgiven : ∀ x, x ∈ names ↔ c.GivenBelow done.next x := by
    intro x
    have hmem : x ∈ names ↔ ∃ k, (1 ≤ k ∧ k < 1 + names.length) ∧ c.temporaryName k = x := by
      conv_lhs => rw [hnames]
      simp only [List.mem_map, List.mem_range'_1]
      rfl
    rw [hmem, hdone]
    simp only [Context.GivenBelow, and_assoc, eq_comm]
  refine ⟨names, hcalls, fun entry _ => ⟨?_, ?_, fun hfree => ⟨fun st hst => ?_, ?_⟩⟩⟩
  · rw [hgiven, hdone]
    constructor
    · rintro ⟨k, hk, hlt, hname⟩
      exact ⟨k, hk, by omega, hname⟩
    · rintro ⟨k, hk, hlt, hname⟩
      exact ⟨k, hk, by omega, hname⟩
  · rw [hgiven]
    exact isTemporary_iff.symm
  · exact not_stable_of_le hst (mt (hgiven _).mpr hfree)
  · intro e important st hreached hdeclared
    obtain ⟨hfirst, hlast⟩ := madeBetween_of_reached hreached
    have hgiven' := declares_lowerExpr c e important hfirst.next _ hdeclared
    exact hfree ((hgiven _).mpr (hgiven'.mono hlast.next))

/-- A property behind accessors, and a prefix that variables may have, too. -/
def sampleCollision : Session where
  options := { temporaryPrefix := "tmp" }
  naming := { memberForms := [(⟨0⟩, .property "get_size" "set_size")] }

/-- `use(tmp1, b.size = a)` -/
def sampleCollisionCall : Source.Expr :=
  .delegateCall {} (.localVar {} ⟨3⟩)
    [.mk .value (.localVar {} ⟨0⟩),
      .mk .value (.assign {} none (.property {} (some (.localVar {} ⟨1⟩)) ⟨0⟩) (.localVar {} ⟨2⟩))]

/-- The call as a body, in which a variable has the name of a temporary. -/
def sampleCollisionBody : Body where
  scope := { entries := [(⟨0⟩, { name := "tmp1" }), (⟨1⟩, { name := "b" }), (⟨2⟩, { name := "a" }),
    (⟨3⟩, { name := "use" })] }
  statement := .expr {} sampleCollisionCall

/-- The options of the sample are accepted, and still the first temporary overwrites the variable of
its name, so that the call gets the value of `a` twice. -/
theorem compileBody_captures_sampleCollision :
    sampleCollision.options.invalid? = none ∧
    sampleCollision.compileBody sampleCollisionBody {} = some (
      [.var "tmp2" (some (.ident "use")), .var "tmp1" (some (.ident "a")),
        .expr (.call (.member (.ident "b") "set_size") [.ident "tmp1"]),
        .expr (.call (.ident "tmp2") [.ident "tmp1", .ident "tmp1"])],
      { location := ⟨"", {}⟩ }) :=
  ⟨by decide +kernel, rfl⟩

/-- In the sample, `tmp1` is captured.  The variable `b` is not: it is no temporary from the start, and
the statements of the call do not declare it. -/
theorem lowerStmt_captures_iff_sampleCollision :
    ∃ names, Calls (sampleCollision.context sampleCollisionBody)
        (lowerStmt (sampleCollision.context sampleCollisionBody) sampleCollisionBody.statement true)
        { reporter := {} } names ∧
      "tmp1" ∈ names ∧ "b" ∉ names ∧
      (isStable (sampleCollision.context sampleCollisionBody) (.ident "b") {}).1 = false ∧
      Occurrence.declared "b" ∉ stmtsOccurrences
        (lowerExpr (sampleCollision.context sampleCollisionBody) sampleCollisionCall false
          (setLocation ⟨"", {}⟩ {}).2).1.before := by
  obtain ⟨names, hcalls, hvariables⟩ :=
    lowerStmt_captures_iff sampleCollision sampleCollisionBody {}
  obtain ⟨-, hcaptured, -⟩ := hvariables (⟨0⟩, { name := "tmp1" }) (by decide)
  obtain ⟨-, hstable, hsafe⟩ := hvariables (⟨1⟩, { name := "b" }) (by decide)
  have hfree : "b" ∉ names := fun h => by cases hstable.mp h
  obtain ⟨hnever, hhoisted⟩ := hsafe hfree
  refine ⟨names, hcalls, hcaptured.mpr rfl, hfree, (hnever {} (by decide)).2, ?_⟩
  exact hhoisted _ _ _ (.single List.mem_cons_self)

end Session

end ScriptCompiler
