import ScriptCompiler.Proofs.Hoisting.Expression
import ScriptCompiler.Proofs.Hoisting.Recorder

/-!
# The order of evaluation in assignments

Two kinds of assignment may depart from the order of the source.

* An assignment through an operator evaluates the sub-expressions of its target first, but it reads
  the target behind the statements that its value needs.
* An assignment to an indexer behind accessors, if its value is used, captures the object and the
  arguments ahead of the value.  A variable that the value does not assign is left standing, even
  if an argument behind it assigns it.

For both, what the emitted code does is stated without condition, next to the condition under which
it is what the source does.  A run on the machine that keeps a record shows that without the
condition the two differ.
-/

namespace ScriptCompiler.Lowering

open Machine

variable {V H : Type*}

/-- From the sample memory, the emitted code of `e` ends with the value `v` and this record. -/
def Records (e : Source.Expr) (v : Term) (heap : List Event) : Prop :=
  let L := (lowerExpr .sample e true {}).1
  ∃ t', Script.Completes (recorder .sample) L.before
      (Context.load .sample (fun _ => .null) sampleMemory) t' ∧
    (L.value.eval (recorder .sample) t').1 = v ∧
    (L.value.eval (recorder .sample) t').2.store.heap = heap

/-! ## Assignments through an operator -/

/-- An assignment through an operator evaluates the sub-expressions of its target, runs the
statements of its value, reads the target, evaluates what is left of the value, and writes once.
If reading the target behind the statements comes to the same as reading it ahead of them, this has
the effects and the value of the source, which reads the target before it turns to the value.  That
is the case if the value needs no statements, and if the target is a variable that the value does
not assign. -/
theorem lowerExpr_compound_order {P : Primitives V H} {c : Context} (hc : Grounded P c)
    {i : Source.Info} {op : Source.BinaryOp} {target value : Source.Expr} {important : Bool}
    (hop : op.isShortCircuit = false) (htarget : target.isTarget = true)
    (hwithin : target.Within c (Sequential c) true)
    (hvalue : value.Within c (Sequential c) true) (st : State) :
    let e := Source.Expr.assign i (some op) target value
    let M := assignedValue c target value st
    let L := lowerExpr c e important st
    ModifiesLate P c (fun id => e.assigns id = true) important st.next L.2.next target
        (op.apply P target.type value.type) M L.1 ∧
      (Undisturbed P c target M →
        ∀ ⦃g : String → V⦄ ⦃s : Memory VariableId V H⦄ ⦃t : Memory String V H⦄,
          Matches c g s t → ∃ t', Script.Completes P L.1.before t t' ∧
            Matches c g (e.eval P c s).2 (L.1.value.eval P t').2 ∧
            (important = true → (L.1.value.eval P t').1 = (e.eval P c s).1)) ∧
      (M.before = [] ∨ (∃ id, c.IsPlain target id ∧ value.assigns id = false) →
        Undisturbed P c target M) := by
  intro e M L
  have hA : ∀ k, target.isVariable k = true ∨ target.assigns k = true ∨ value.assigns k = true →
      e.assigns k = true := by
    simp [e, Source.Expr.assigns, or_assoc]
  have hlowered := fun e => yields_lowerExpr hc (sequential_isSequential c) e true
  obtain ⟨L', n', hstep, n₁, n₂, hM, hlate⟩ := lowerExpr_compound hc i important hop htarget
    hwithin (fun n => yields_lowerTarget hc htarget hwithin (fun a _ => hlowered a.value)
      fun k hk => hA k (Or.inr (Or.inl hk))) (fun n => hlowered value n hvalue) hA st
  have hL : L = (L', { st with next := n' }) := hstep
  rw [hL]
  refine ⟨hlate, fun hreads g s t hm => ?_, fun h => ?_⟩
  · obtain ⟨t', hrun, -, hm', hv⟩ := (hlate.lowers hc hM.lowers hreads).run hm
    refine ⟨t', hrun, ?_, fun himportant => ?_⟩
    · simpa only [e, Source.Expr.eval] using hm'
    · simpa only [e, Source.Expr.eval] using hv himportant
  · rcases h with hbefore | ⟨id, hplain, hassigns⟩
    · exact undisturbed_nil hbefore
    · exact undisturbed_variable hc hM.lowers hplain (by simp [hassigns])

/-- `b.size = v`, which needs statements if its value is used. -/
def sampleSetting (v : Source.Expr) : Source.Expr :=
  .assign {} none (.property {} (some (.localVar {} ⟨1⟩)) ⟨0⟩) v

/-- `a += (b.size = v)` -/
def sampleCompound (v : Source.Expr) : Source.Expr :=
  .assign {} (some .add) (.localVar {} ⟨0⟩) (sampleSetting v)

/-- Setting the size can be lowered faithfully. -/
lemma within_sampleSetting {v : Source.Expr} {other : Condition}
    (hv : v.Within .sample other true) : (sampleSetting v).Within .sample other true :=
  ⟨rfl, ⟨Or.inr ⟨_, _, rfl⟩, _, rfl⟩, hv, Or.inl ⟨rfl, fun _ h => h⟩⟩

/-- `a += (b.size = 5)` needs a statement, which does not assign the variable; the sum is that of
the source. -/
theorem lowerExpr_compound_order_sample :
    (assignedValue .sample (.localVar {} ⟨0⟩) (sampleSetting (.constant {} (.int 5))) {}).before ≠
        [] ∧
      Records (sampleCompound (.constant {} (.int 5)))
        (.binary .add (.number .zero) (.number (Double.ofInt 5)))
        [.call .this "set_size" [.number (Double.ofInt 5)]] := by
  have hwithin : (sampleSetting (.constant {} (.int 5))).Within .sample (Sequential .sample) true :=
    within_sampleSetting trivial
  have hvariable : (Source.Expr.localVar {} ⟨0⟩).Within .sample (Sequential .sample) true :=
    ⟨_, rfl⟩
  have hop : Source.BinaryOp.add.isShortCircuit = false := rfl
  obtain ⟨-, hruns, hreads⟩ :=
    lowerExpr_compound_order grounded_sample (i := {}) hop rfl hvariable hwithin {}
  obtain ⟨t', hrun, hm, hv⟩ := hruns (hreads (Or.inr ⟨⟨0⟩, ⟨rfl, _, rfl, rfl⟩, rfl⟩))
    (matches_load grounded_sample (fun _ => .null) sampleMemory)
  exact ⟨List.cons_ne_nil _ _, t', hrun, hv rfl, congrArg Store.heap hm.store⟩

/-- `a += (b.size = (a = 5))` assigns the variable in a statement.  The emitted code reads it behind
the statement and adds five to five, where the source adds five to the old value. -/
theorem lowerExpr_compound_out_of_order :
    let e := sampleCompound (.assign {} none (.localVar {} ⟨0⟩) (.constant {} (.int 5)))
    Records e (.binary .add (.number (Double.ofInt 5)) (.number (Double.ofInt 5)))
        [.call .this "set_size" [.number (Double.ofInt 5)]] ∧
      (e.eval (recorder .sample) .sample sampleMemory).1 =
        .binary .add (.number .zero) (.number (Double.ofInt 5)) :=
  ⟨⟨_, (Script.completes_var _ _ _).append (Script.completes_expr _ _), rfl, rfl⟩, rfl⟩

/-! ## Assignments to indexers behind accessors -/

/-- What a setter gets for an argument: the value that the argument had in its turn, or, if the
argument is a variable outside containers, the value of the variable in the memory `s`. -/
def Passed (c : Context) (s : Memory VariableId V H) (passed : V)
    (argument : Source.Argument × V) : Prop :=
  passed = argument.2 ∨
    ∃ mode e id, argument.1 = .mk mode e ∧ c.IsPlain e id ∧ passed = s.vars id

/-- What the lowered assignment of `value` to an indexer behind accessors does.  The sub-expressions
of the target and the value are evaluated once each, in turn; then the setter is called, with the
variables among the sub-expressions as they are behind all of them, and the value is the value of
the assignment.  If `ordered`, the setter gets the values that the sub-expressions had in their
turn. -/
def PassesLate (P : Primitives V H) (c : Context) (target value : Source.Expr) (ordered : Prop)
    (L : Lowered) : Prop :=
  ∀ ⦃g : String → V⦄ ⦃s : Memory VariableId V H⦄ ⦃t : Memory String V H⦄, Matches c g s t →
    let vs := Source.evalArguments P c target.operands s
    let w := value.eval P c vs.2
    ∃ passed t', List.Forall₂ (Passed c vs.2) passed (target.operands.zip vs.1) ∧
      (ordered → passed = vs.1) ∧ Script.Completes P L.before t t' ∧
      Matches c g ((target.slotOf P c passed s).write P w.1 w.2) (L.value.eval P t').2 ∧
      (L.value.eval P t').1 = w.1

section

variable {P : Primitives V H} {c : Context} {A : VariableId → Prop} {n n₁ n₂ n' : ℕ}
  {target value : Source.Expr} {es : List Script.Expr} {arguments : List Source.Argument}

/-- The values of the turn are passed. -/
lemma forall₂_passed_self (s : Memory VariableId V H) {vs : List V}
    (h : arguments.length = vs.length) :
    List.Forall₂ (Passed c s) vs (arguments.zip vs) := by
  induction arguments generalizing vs with
  | nil =>
    obtain rfl : vs = [] := List.length_eq_zero_iff.mp h.symm
    exact .nil
  | cons a arguments ih =>
    obtain ⟨v, vs, rfl⟩ := List.exists_cons_of_length_eq_add_one h.symm
    exact .cons (Or.inl rfl) (ih (by simpa using h))

/-- Identifiers left standing are passed with the values that their variables have behind all
operands.  A temporary or a container among them still has the value of its turn. -/
lemma forall₂_passed_late (hc : Grounded P c) {keep : String → Bool}
    {s : Memory VariableId V H} {t t' : Memory String V H}
    (h : List.Forall₂ (Stands c n) es arguments)
    (hnames : ∀ id x, c.Names id x → keep x = true → t'.vars x = s.vars id)
    (hothers : ∀ x, (∀ id, ¬ c.NamesPlain id x) → t'.vars x = t.vars x) :
    List.Forall₂ (Passed c s) (List.zipWith (late P keep t') es (Script.evalAll P es t).1)
      (arguments.zip (Script.evalAll P es t).1) := by
  induction h generalizing t with
  | nil => exact .nil
  | @cons e a es arguments he _ ih =>
    have hkept : ∀ x, (∀ id, ¬ c.NamesPlain id x) → (e.eval P t).2.vars x = t.vars x :=
      fun x hx => e.eval_vars (he.tame.not_writes fun id _ => hx id) t
    refine .cons ?_ (ih fun x hx => (hothers x hx).trans (hkept x hx).symm)
    cases e with
    | ident x =>
      simp only [late, Script.Expr.eval]
      split
      · rename_i hkeep
        by_cases hplain : ∃ id, c.NamesPlain id x
        · obtain ⟨id, hid⟩ := hplain
          obtain ⟨mode, source, rfl, hsource⟩ := he.plain hc hid
          refine .inr ⟨mode, source, id, rfl, hsource, ?_⟩
          rw [hc.lookup_names hid.names, hnames id x hid.names hkeep]
        · refine .inl ?_
          have hx : t'.vars x = t.vars x := hothers x fun id hid => hplain ⟨id, hid⟩
          simp only [Script.lookup, hx]
      · exact .inl rfl
    | _ => exact .inl rfl

/-- The place of an indexer behind accessors is where the source finds it, whatever is passed. -/
lemma placeOf_accessorIndexer (hindexer : c.IsAccessorIndexer target)
    (hes : ∀ e ∈ es, Tame c A n e) (hlength : es.length = target.operands.length) :
    ∃ place, placeOf c target es = pure place ∧ place.parts = es ∧ place.Assignable c A n ∧
      ∀ (passed : List V) (s : Memory VariableId V H) (t : Memory String V H),
        Slot.Same c.Names (target.slotOf P c passed s) (place.locate P c passed t) := by
  cases target with
  | indexer i object id arguments =>
    obtain ⟨getter, setter, hform⟩ := hindexer
    obtain ⟨e, keys, rfl⟩ := List.exists_cons_of_length_eq_add_one hlength
    refine ⟨.accessor e id keys, by simp [placeOf, propertyPlace, getForm_eq hform], rfl,
      .accessor hform hes, fun passed s t => ?_⟩
    simpa only [Source.Expr.slotOf, Source.memberSlot, Place.locate, hform] using
      Slot.Same.accessor _ _ _ _
  | _ => exact hindexer.elim

/-- An assignment in the order of the source passes the values of the turn. -/
lemma Lowers.passesLate (ordered : Prop) {L : Lowered}
    (h : Lowers P c A true n n' L fun s =>
      let l := target.slot P c s
      let v := value.eval P c l.2
      (v.1, l.1.write P v.1 v.2)) : PassesLate P c target value ordered L := by
  intro g s t hm
  obtain ⟨t', hrun, -, hm', hv⟩ := h.run hm
  rw [Source.Expr.slot_eq] at hm' hv
  refine ⟨_, t', forall₂_passed_self _ ?_, fun _ => rfl, hrun, hm', hv rfl⟩
  exact (Source.length_evalArguments P c target.operands s).symm

/-- Nothing is passed late if no operand could be. -/
lemma Gathers.passes_ordered (hc : Grounded P c) {operands : Operands} (ordered : Prop)
    (h : Gathers P c A n n' operands (target.operands ++ [.mk .value value]))
    (htarget : target.isTarget = true) (hwithin : target.Within c (Sequential c) true)
    (hA : ∀ k, target.isVariable k = true → A k)
    (hundelayed : Undelayed operands.values.dropLast operands.last) :
    Yields
      (do
        let place ← placeOf c target operands.values.dropLast
        let stored ← place.store c operands.last true
        return { stored with before := operands.before ++ stored.before }) n'
      fun L _ => PassesLate P c target value ordered L :=
  (h.store hc htarget hwithin hA fun _ _ => hundelayed).mono fun _ _ hL =>
    hL.1.passesLate ordered

/-- Operands that need no statements behind them are passed late. -/
lemma Gathers.passes_late (hc : Grounded P c) {operands : Operands} {M : Lowered}
    (h : Gathers P c A n n₁ operands target.operands) (hM : Faithful P c true n₁ n₂ M value)
    (hA : ∀ k, value.assigns k = true → A k) (hbefore : M.before = [])
    (hindexer : c.IsAccessorIndexer target) :
    Yields
      (do
        let place ← placeOf c target operands.values
        let stored ← place.store c M.value true
        return { stored with before := operands.before ++ stored.before }) n₂
      fun L _ => PassesLate P c target value False L := by
  obtain ⟨place, hplace, hparts, hassignable, hsame⟩ := placeOf_accessorIndexer (P := P) hindexer
    (fun e he => (h.tame e he).mono hM.lowers.le) h.stands.length_eq
  simp only [hplace, pure_bind]
  refine (yields_store hc hassignable (hM.lowers.tame.weaken hA) true (Nat.le_refl n₂)).bind
    fun stored n' hstored => ?_
  obtain ⟨delayed, -, hperforms⟩ := hstored
  refine .pure fun g s t hm => ?_
  obtain ⟨t₁, hrun, -, hvs, hm₁⟩ := h.run hm
  obtain ⟨t', hrun', -, hapart, hv⟩ := hperforms.run t₁
  obtain ⟨hm₂, hw⟩ := hM.lowers.run_direct hbefore hm₁
  simp only [Place.storing, hparts, hw rfl] at hapart hv
  refine ⟨_, t', ?_, False.elim, hrun.append hrun',
    (hm₂.write hc (hsame _ s t₁) _).apart hc hapart, hv trivial⟩
  cases delayed with
  | false =>
    simp only [Bool.false_eq_true, if_false, hvs]
    exact forall₂_passed_self _ (Source.length_evalArguments P c target.operands s).symm
  | true =>
    simp only [if_true]
    rw [← hvs]
    refine forall₂_passed_late hc h.stands (fun id x hx hkeep => ?_) fun x hx => ?_
    · rw [M.value.eval_vars (by simpa using hkeep)]
      exact hm₁.vars hx
    · have hframe := (Tame.evalAll_frame (P := P) h.tame n₂ t₁).trans
        ((hM.lowers.tame.weaken hA).frame (P := P) n₂ (Script.evalAll P operands.values t₁).2)
      exact hframe x (fun id _ => hx id) fun k hk hk' => by omega

/-- Operands behind which the value needs statements are captured and passed in order; without
statements, those that stay may be passed late. -/
lemma Gathers.passes (hc : Grounded P c) {operands : Operands} {M : Lowered}
    (h : Gathers P c A n n₁ operands target.operands) (hM : Faithful P c true n₁ n₂ M value)
    (hstands : Stands c n₂ M.value (.mk .value value)) (hA : ∀ k, value.assigns k = true → A k)
    (hindexer : c.IsAccessorIndexer target) (hwithin : target.Within c (Sequential c) true) :
    Yields
      (do
        let operands ← operands.add c M
        let place ← placeOf c target operands.values.dropLast
        let stored ← place.store c operands.last true
        return { stored with before := operands.before ++ stored.before }) n₂
      fun L _ => PassesLate P c target value
        (M.before ≠ [] ∨ Undelayed operands.values M.value) L := by
  have hvariable : ∀ k, target.isVariable k = true → A k := by
    cases target with
    | indexer => exact fun k hk => by cases hk
    | _ => exact hindexer.elim
  refine (yields_add hc h.tame M hM.lowers.le).bind fun operands' n' hadd => ?_
  rcases hadd with ⟨hbefore, rfl, rfl⟩ | ⟨-, captured, hcap, rfl⟩
  · have hlast : Operands.last { operands with values := operands.values ++ [M.value] } =
        M.value := by simp [Operands.last]
    by_cases hundelayed : Undelayed operands.values M.value
    · refine (h.add_direct (a := .mk .value value) hM.lowers hstands hA hbefore).passes_ordered hc
        _ hindexer.isTarget hwithin hvariable ?_
      rwa [List.dropLast_concat, hlast]
    · simp only [List.dropLast_concat, hlast]
      refine (h.passes_late hc hM hA hbefore hindexer).mono fun L _ hL g s t hm => ?_
      obtain ⟨passed, t', hpassed, -, hrest⟩ := hL hm
      refine ⟨passed, t', hpassed, fun hordered => ?_, hrest⟩
      rcases hordered with hne | h
      · exact absurd hbefore hne
      · exact absurd h hundelayed
  · refine (h.add_captured (a := .mk .value value) hc hM.lowers hstands hA hcap).passes_ordered hc
      _ hindexer.isTarget hwithin hvariable ?_
    rw [List.dropLast_concat]
    have hn' := hcap.le
    have hn₂ := hM.lowers.le
    exact Undelayed.of_fixed (n := n') (fun k hk => by omega) hcap.all_fixed _

end

/-- The value of an assignment to an indexer behind accessors may be used.  Then the object, the
arguments and the value are evaluated once each, in turn, before the setter is called, and the
assignment yields the value.  The setter gets the values that the object and the arguments had in
their turn, except for variables among them, which it may get as they are behind all arguments.  It
gets the values of the turn if the value needs statements, if it is pure, or if it assigns every
variable left standing that is assigned behind its turn.  So it does in particular if no variable
among the object and the arguments is assigned by an argument behind it. -/
theorem lowerExpr_indexer_order {P : Primitives V H} {c : Context} (hc : Grounded P c)
    {i : Source.Info} {target value : Source.Expr} (hindexer : c.IsAccessorIndexer target)
    (hwithin : target.Within c (Sequential c) true)
    (hvalue : value.Within c (Sequential c) true) (st : State) :
    let O := (lowerTarget c target st).1
    let M := assignedValue c target value st
    PassesLate P c target value (M.before ≠ [] ∨ Undelayed O.values M.value)
        (lowerExpr c (.assign i none target value) true st).1 ∧
      (Steady c target.operands → Undelayed O.values M.value) := by
  have hlowered := fun e => yields_lowerExpr hc (sequential_isSequential c) e true
  obtain ⟨operands, n₁, hO, hgathers⟩ := yields_lowerTarget hc hindexer.isTarget hwithin
    (fun a _ => hlowered a.value) (A := fun _ => True) (fun _ _ => trivial) st rfl
  obtain ⟨M, n₂, hM, hfaithful⟩ := hlowered value n₁ hvalue { st with next := n₁ } rfl
  have hvalue : assignedValue c target value st = M := by rw [assignedValue, hO, hM]
  have hstands : Stands c n₂ M.value (.mk .value value) := by
    rw [← hvalue] at hfaithful ⊢
    exact hfaithful.stands
  obtain ⟨L, n', hL, hpasses⟩ := hgathers.passes hc hfaithful hstands (fun _ _ => trivial) hindexer
    hwithin { st with next := n₂ } rfl
  rw [lowerExpr_assign_eq, hvalue, hO, hM]
  simp only [assignPlace, hL]
  exact ⟨hpasses, fun hsteady => hsteady.undelayed hc hgathers.stands _⟩

/-- `b[b = a]` -/
def sampleIndexer : Source.Expr :=
  let b := Source.Expr.localVar {} ⟨1⟩
  .indexer {} b ⟨1⟩ [.mk .value (.assign {} none b (.localVar {} ⟨0⟩))]

/-- The sample indexer can be lowered faithfully. -/
lemma within_sampleIndexer {other : Condition} : sampleIndexer.Within .sample other true :=
  ⟨Or.inl ⟨_, _, rfl⟩, ⟨_, rfl⟩, ⟨rfl, ⟨_, rfl⟩, ⟨_, rfl⟩, Or.inl ⟨rfl, fun _ h => h⟩⟩, trivial⟩

/-- In `b[b = a] = (b.size = 5)` the value needs statements, so the object is captured ahead of the
argument that assigns it. -/
theorem lowerExpr_indexer_order_sample :
    Records (.assign {} none sampleIndexer (sampleSetting (.constant {} (.int 5))))
      (.number (Double.ofInt 5))
      [.call (.number .zero) "set_size" [.number (Double.ofInt 5)],
        .call .this "set_item" [.number .zero, .number (Double.ofInt 5)]] := by
  have hvalue : (sampleSetting (.constant {} (.int 5))).Within .sample (Sequential .sample) true :=
    within_sampleSetting trivial
  have hindexer : Context.sample.IsAccessorIndexer sampleIndexer := ⟨"get_item", "set_item", rfl⟩
  obtain ⟨hpasses, -⟩ := lowerExpr_indexer_order grounded_sample (i := {}) hindexer
    within_sampleIndexer hvalue {}
  obtain ⟨passed, t', -, hordered, hrun, hm, hv⟩ :=
    hpasses (matches_load grounded_sample (fun _ => .null) sampleMemory)
  obtain rfl := hordered (Or.inl (List.cons_ne_nil _ _))
  exact ⟨t', hrun, hv, congrArg Store.heap hm.store⟩

/-- In `b[b = a] = b.use()` the object is left standing.  The emitted code calls the setter on what
the argument has assigned to the variable, where the source calls it on the old object. -/
theorem lowerExpr_indexer_out_of_order :
    let e := Source.Expr.assign {} none sampleIndexer (.call {} (some (.localVar {} ⟨1⟩)) ⟨2⟩ [])
    Records e (.result 0)
        [.call (.number .zero) "use" [],
          .call (.number .zero) "set_item" [.number .zero, .result 0]] ∧
      (e.eval (recorder .sample) .sample sampleMemory).2.store.heap =
        [.call (.number .zero) "use" [], .call .this "set_item" [.number .zero, .result 0]] :=
  ⟨⟨_, ((Script.completes_var _ _ _).append (Script.completes_var _ _ _)).append
    (Script.completes_expr _ _), rfl, rfl⟩, rfl⟩

end ScriptCompiler.Lowering
