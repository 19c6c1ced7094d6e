import ScriptCompiler.Proofs.Hoisting.Assignments
import ScriptCompiler.Proofs.Traversal.Operands

/-!
# Lowering keeps effects and values

The induction over the source tree: every expression of the fragment is lowered to a value whose
statements and evaluation do what the expression does.  A strict expression is lowered operand by
operand and then completed, so it is enough to know for each kind how it is completed
(`CompletesTo`).  An assignment through an operator is the exception among them: what it reads
depends on the statements of its value.
-/

namespace ScriptCompiler

/-! ## Operands of the fragment -/

namespace Source

open Lowering (Context Condition)

variable {c : Context} {other : Condition} {id : VariableId} {e target : Expr}

/-- The argument can be lowered faithfully; one passed by reference is a variable in a container. -/
def Argument.Within (c : Context) (other : Condition) (a : Argument) : Prop :=
  if a.mode.isReference then c.IsContained a.value else a.value.Within c other true

lemma within_value : (Argument.mk .value e).Within c other ↔ e.Within c other true :=
  Iff.rfl

lemma argumentsWithin_iff {arguments : List Argument} :
    argumentsWithin c other arguments ↔ ∀ a ∈ arguments, a.Within c other := by
  induction arguments with
  | nil => simp [argumentsWithin]
  | cons a rest ih =>
    cases a
    simp only [argumentsWithin, ih, List.forall_mem_cons]
    rfl

lemma elementsWithin_iff {elements : List Expr} :
    elementsWithin c other elements ↔ ∀ e ∈ elements, e.Within c other true := by
  induction elements with
  | nil => simp [elementsWithin]
  | cons e rest ih => simp only [elementsWithin, ih, List.forall_mem_cons]

lemma argumentsAssign_eq (arguments : List Argument) :
    argumentsAssign id arguments = arguments.any (·.assigns id) := by
  induction arguments with
  | nil => rfl
  | cons a rest ih =>
    cases a
    simp only [argumentsAssign, ih, List.any_cons, Argument.assigns]

lemma elementsAssign_eq (elements : List Expr) :
    elementsAssign id elements = elements.any (·.assigns id) := by
  induction elements with
  | nil => rfl
  | cons e rest ih => simp only [elementsAssign, ih, List.any_cons]

/-- The sub-expressions of a target of the fragment can be lowered faithfully. -/
lemma within_of_mem_operands (h : target.Within c other true) :
    ∀ a ∈ target.operands, a.Within c other := by
  cases target with
  | field i object | property i object =>
    cases object <;> simp_all [Expr.operands, Expr.Within, receiverWithin, within_value]
  | indexer | element =>
    simp_all [Expr.operands, Expr.Within, argumentsWithin_iff, within_value]
  | _ => simp [Expr.operands]

/-- The operands of an expression of the fragment can be lowered faithfully. -/
lemma within_of_mem_inTurn {important : Bool} (h : e.Within c other important) :
    ∀ a ∈ e.inTurn, a.Within c other := by
  cases e with
  | field i object | property i object =>
    cases object <;> simp_all [Expr.inTurn, Expr.Within, receiverWithin, within_value]
  | call i object =>
    cases object <;>
      simp_all [Expr.inTurn, Expr.Within, receiverWithin, argumentsWithin_iff, within_value]
  | assign i op target value =>
    exact List.forall_mem_append.mpr
      ⟨within_of_mem_operands h.2.1, List.forall_mem_singleton.mpr h.2.2.1⟩
  | increment i kind target => exact within_of_mem_operands h.2
  | _ => simp_all [Expr.inTurn, Expr.Within, argumentsWithin_iff, elementsWithin_iff, within_value]

/-- What a sub-expression of a target assigns, the target assigns. -/
lemma assigns_of_mem_operands {a : Argument} (ha : a ∈ target.operands)
    (h : a.assigns id = true) : target.assigns id = true := by
  cases target with
  | field i object | property i object =>
    cases object <;> simp_all [Expr.operands, Expr.assigns, receiverAssigns, Argument.assigns]
  | indexer | element =>
    simp only [Expr.operands, List.mem_cons, List.not_mem_nil, or_false] at ha
    simp only [Expr.assigns, argumentsAssign_eq, Bool.or_eq_true, List.any_eq_true]
    grind [Argument.assigns]
  | _ => cases ha

/-- What an operand assigns, the expression assigns. -/
lemma assigns_of_mem_inTurn {a : Argument} (ha : a ∈ e.inTurn) (h : a.assigns id = true) :
    e.assigns id = true := by
  cases e with
  | field i object | property i object | call i object =>
    cases object <;>
      simp_all [Expr.inTurn, Expr.assigns, receiverAssigns, argumentsAssign_eq,
        Argument.assigns] <;>
      grind [Argument.assigns]
  | assign i op target value =>
    simp only [Expr.assigns, Bool.or_eq_true]
    rcases List.mem_append.mp ha with ha | ha
    · exact .inl (.inr (assigns_of_mem_operands ha h))
    · obtain rfl := List.mem_singleton.mp ha
      exact .inr h
  | increment i kind target =>
    exact Bool.or_eq_true_iff.mpr (.inr (assigns_of_mem_operands ha h))
  | _ =>
    simp_all [Expr.inTurn, Expr.assigns, argumentsAssign_eq, elementsAssign_eq] <;>
      grind [Argument.assigns]

end Source

namespace Lowering

open Machine

variable {V H : Type*}

/-- The lowered value does what the expression does, and it is an identifier only if it is a
temporary or the expression is that variable. -/
structure Faithful (P : Primitives V H) (c : Context) (important : Bool) (n n' : ℕ) (L : Lowered)
    (e : Source.Expr) : Prop where
  lowers : Lowers P c (fun id => e.assigns id = true) important n n' L (e.eval P c)
  ident : ∀ x, L.value = .ident x →
    (∃ k, x = c.temporaryName k) ∨ (Source.Argument.mk .value e).names c x

section

variable {P : Primitives V H} {c : Context} {A : VariableId → Prop} {other : Condition}
  {important : Bool} {n n₁ n' : ℕ} {L : Lowered} {e : Source.Expr} {operands : Operands}
  {arguments earlier : List Source.Argument} {i : Source.Info} {target value : Source.Expr}

/-- The same computation of the source. -/
lemma Lowers.congr {source source' : Memory VariableId V H → V × Memory VariableId V H}
    (h : Lowers P c A important n n' L source) (hsource : ∀ s, source' s = source s) :
    Lowers P c A important n n' L source' := by
  rwa [funext hsource]

/-- A value that is no identifier. -/
lemma Faithful.of_lowers
    (h : Lowers P c (fun id => e.assigns id = true) important n n' L (e.eval P c))
    (hident : ∀ x, L.value = .ident x → ∃ k, x = c.temporaryName k) :
    Faithful P c important n n' L e :=
  ⟨h, fun x hx => Or.inl (hident x hx)⟩

/-- The lowered value stands for the expression. -/
lemma Faithful.stands {st : State} (h : Faithful P c true n n' (lowerExpr c e true st).1 e) :
    Stands c n' (lowerExpr c e true st).1.value (.mk .value e) := by
  refine ⟨h.lowers.tame, h.ident, ?_⟩
  rintro _ ⟨⟩ hcallable
  exact hcallable st

/-- A constant has its value. -/
lemma lowers_constant (value : Source.Constant) :
    Lowers P c A important n n { value := constantExpr value } fun s => (value.denote P, s) := by
  refine Lowers.of_expr ?_ fun {g s t} _ => ?_
  · cases value <;> exact ⟨fun _ _ => rfl, fun _ hx => by cases hx⟩
  · cases value <;> rfl

/-- The identifier of a variable is tame. -/
lemma tame_names (hc : Grounded P c) {id : VariableId} {x : String} (hx : c.Names id x) :
    Tame c A n (.ident x) := by
  refine ⟨fun k _ => ?_, fun _ hy => by cases hy⟩
  simpa [Script.Expr.mentions] using hc.not_temporary k hx

/-- The identifier of a variable has the value of the variable. -/
lemma lowers_names (hc : Grounded P c) {id : VariableId} {x : String} (hx : c.Names id x) :
    Lowers P c A important n n { value := .ident x } fun s => (s.vars id, s) :=
  Lowers.of_expr (tame_names hc hx) fun {g s t} hm => by
    simp only [Script.Expr.eval, hc.lookup_names hx, hm.vars hx]

/-- A variable is read, from its container if it has one. -/
lemma lowers_variable (hc : Grounded P c) {id : VariableId} (h : ∃ v, c.scope.get? id = some v) :
    ∃ e, readVariable c id = pure e ∧
      Lowers P c A important n n { value := e } ((Source.Expr.localVar i id).eval P c) ∧
      ∀ x, e = .ident x → c.Names id x := by
  obtain ⟨v, hv⟩ := h
  have hx : c.Names id v.name := ⟨v, hv, rfl⟩
  cases href : v.byReference with
  | false =>
    refine ⟨.ident v.name, by simp [readVariable, hv, href], ?_,
      fun x hx' => by cases hx'; exact hx⟩
    exact (lowers_names hc hx).congr fun s => by
      simp [Source.Expr.eval, Source.variableSlot, hv, href, Slot.read]
  | true =>
    refine ⟨.member (.ident v.name) c.options.referenceField, by simp [readVariable, hv, href], ?_,
      fun x hx => by cases hx⟩
    have hident : Tame c A n (.ident v.name) := tame_names hc hx
    have htame : Tame c A n (.member (.ident v.name) c.options.referenceField) :=
      ⟨hident.fresh, hident.writes⟩
    refine ((lowers_names hc hx).act htame (fun o => P.readMember o P.containerField)
      fun t => ?_).congr fun s => ?_
    · simp only [Script.Expr.eval, hc.containerField]
    · simp [Source.Expr.eval, Source.variableSlot, hv, href, Slot.read]

/-- An operand is lowered to what stands for it; an argument passed by reference is the container of
its variable. -/
lemma yields_lowerOperand (hc : Grounded P c) {a : Source.Argument} (ha : a.Within c other)
    (hvalue : a.value.Within c other true →
      Yields (lowerExpr c a.value true) n fun L n' => Faithful P c true n n' L a.value) :
    Yields (lowerOperand c a) n fun L n' =>
      Lowers P c (fun id => a.assigns id = true) true n n' L (a.eval P c) ∧
        Stands c n' L.value a := by
  obtain ⟨mode, e⟩ := a
  cases hmode : mode.isReference with
  | false =>
    obtain rfl : mode = .value := by cases mode <;> first | rfl | cases hmode
    refine (hvalue ha).origin.mono fun L n' hL => ?_
    obtain ⟨hfaithful, st, rfl⟩ := hL
    exact ⟨hfaithful.lowers, hfaithful.stands⟩
  | true =>
    have hcontained : c.IsContained e := by
      simpa [Source.Argument.Within, Source.Argument.mode, Source.Argument.value, hmode] using ha
    cases e with
    | localVar i id =>
      obtain ⟨v, hv, href⟩ := hcontained
      have hx : c.Names id v.name := ⟨v, hv, rfl⟩
      have hpass :
          lowerOperand c (.mk mode (.localVar i id)) = pure { value := .ident v.name } := by
        simp [lowerOperand, Source.Argument.mode, Source.Argument.value, hmode, passReference, hv,
          href]
      have hlowers : Lowers P c
          (fun k => (Source.Argument.mk mode (.localVar i id)).assigns k = true) true n n
          { value := .ident v.name } ((Source.Argument.mk mode (.localVar i id)).eval P c) :=
        (lowers_names hc hx).congr fun s => by
          simp [Source.Argument.eval, hmode, Source.containerOf]
      rw [hpass]
      refine .pure ⟨hlowers, hlowers.tame, fun x hx' => ?_, fun _ _ _ _ _ h => by cases h⟩
      cases hx'
      exact .inr hx
    | _ => exact hcontained.elim

/-- Lowering arguments in turn adds them to the operands. -/
lemma Gathers.lowerArguments (hc : Grounded P c) (h : Gathers P c A n n₁ operands earlier)
    (hwithin : ∀ a ∈ arguments, a.Within c other)
    (hA : ∀ a ∈ arguments, ∀ id, a.assigns id = true → A id)
    (ih : ∀ a ∈ arguments, ∀ n, a.value.Within c other true →
      Yields (lowerExpr c a.value true) n fun L n' => Faithful P c true n n' L a.value) :
    Yields (lowerArguments c arguments operands) n₁ fun operands' n' =>
      Gathers P c A n n' operands' (earlier ++ arguments) := by
  induction arguments generalizing operands earlier n₁ with
  | nil =>
    simp only [Lowering.lowerArguments, List.append_nil]
    exact .pure h
  | cons a rest ihrest =>
    rw [lowerArguments_cons]
    have hadd : Yields (lowerOperand c a >>= operands.add c) n₁ fun operands' n' =>
        Gathers P c A n n' operands' (earlier ++ [a]) :=
      (yields_lowerOperand hc (hwithin a List.mem_cons_self) (ih a List.mem_cons_self n₁)).bind
        fun L n₂ hL => h.add hc hL.1 hL.2 (hA a List.mem_cons_self)
    refine hadd.bind fun operands' n₂ h' => ?_
    have hrest := ihrest h' (fun b hb => hwithin b (List.mem_cons_of_mem a hb))
      (fun b hb => hA b (List.mem_cons_of_mem a hb)) fun b hb => ih b (List.mem_cons_of_mem a hb)
    rwa [List.append_assoc, List.singleton_append] at hrest

/-- The object of a member access, once its operand is there. -/
lemma Gathers.receiver (hc : Grounded P c) {id : MemberId} {target : Option Source.Expr}
    (h : Gathers P c A n n' operands (target.map (.mk .value)).toList)
    (hwithin : Source.receiverWithin c other id target) :
    ∃ object, placeReceiver c id target operands.values = pure object ∧
      Lowers P c A true n n' { before := operands.before, value := object }
        (Source.evalReceiver P c id target) := by
  obtain ⟨object, hobject, htame, heval⟩ :=
    placeReceiver_eq (P := P) hc hwithin h.tame h.stands.length_eq
  refine ⟨object, hobject, h.le, htame, fun {g s t} hm => ?_⟩
  obtain ⟨t', hrun, hframe, hvs, hm'⟩ := h.run hm
  simp only [Source.evalReceiver_eq, heval, ← hvs]
  exact ⟨t', hrun, hframe, hm', fun _ => rfl⟩

/-- A field of its object. -/
lemma lowers_field {id : MemberId} {target : Option Source.Expr} (hfield : c.IsField id)
    (h : Lowers P c A true n n' L (Source.evalReceiver P c id target)) :
    ∃ name, fieldName c id = pure name ∧
      Lowers P c A important n n' { L with value := .member L.value name }
        ((Source.Expr.field i target id).eval P c) := by
  obtain ⟨name, hname, -, hslot⟩ := fieldName_eq (P := P) hfield
  have htame : Tame c A n' (.member L.value name) := ⟨h.tame.fresh, h.tame.writes⟩
  refine ⟨name, hname, (h.act htame (fun o => P.readMember o name) fun t => rfl).congr fun s => ?_⟩
  simp only [Source.Expr.eval, hslot, Slot.read]

/-- A property of its object. -/
lemma lowers_property {id : MemberId} {target : Option Source.Expr}
    (hform : c.IsField id ∨ c.IsAccessor id)
    (h : Lowers P c A true n n' L (Source.evalReceiver P c id target)) :
    ∃ value, getProperty c L.value id [] = pure value ∧ (∀ x, value ≠ .ident x) ∧
      Lowers P c A important n n' { L with value }
        ((Source.Expr.property i target id).eval P c) := by
  obtain ⟨value, hget, htame, hident, heval⟩ := getProperty_member (P := P) (Or.inr ⟨hform, rfl⟩)
    (by simpa using h.tame : ∀ e ∈ [L.value], Tame c A n' e)
  refine ⟨value, hget, hident, (h.act htame (fun o => memberValue P c id o []) fun t => ?_).congr
    fun s => ?_⟩
  · simp only [heval, Script.evalAll, List.headD_cons, List.tail_cons]
  · simp only [Source.Expr.eval, memberSlot_read]

/-! ## Completing an expression -/

/-- From these operands the expression is completed to a value that does what it does, and that is
an identifier only if it is a temporary. -/
def CompletesTo (P : Primitives V H) (c : Context) (important : Bool) (n n' : ℕ)
    (operands : Operands) (e : Source.Expr) : Prop :=
  Yields (complete c e important operands) n' fun L n'' =>
    Lowers P c (fun id => e.assigns id = true) important n n'' L (e.eval P c) ∧
      ∀ x, L.value = .ident x → ∃ k, x = c.temporaryName k

/-- A value that is no identifier and needs no further statements. -/
lemma CompletesTo.of_lowers {source : Memory VariableId V H → V × Memory VariableId V H}
    (hstep : complete c e important operands = pure L)
    (h : Lowers P c (fun id => e.assigns id = true) important n n' L source)
    (hsource : ∀ s, e.eval P c s = source s) (hident : ∀ x, L.value ≠ .ident x) :
    CompletesTo P c important n n' operands e := by
  rw [CompletesTo, hstep]
  exact .pure ⟨h.congr hsource, fun x hx => absurd hx (hident x)⟩

/-- A strict expression of the fragment is faithful if its operands are and it is completed so. -/
lemma yields_of_complete (hc : Grounded P c) (hstrict : e.isStrict = true)
    (hwithin : e.Within c other important)
    (ih : ∀ a ∈ e.inTurn, ∀ important n, a.value.Within c other important →
      Yields (lowerExpr c a.value important) n fun L n' => Faithful P c important n n' L a.value)
    (hcomplete : ∀ operands n', Gathers P c (fun id => e.assigns id = true) n n' operands e.inTurn →
      CompletesTo P c important n n' operands e) :
    Yields (lowerExpr c e important) n fun L n' => Faithful P c important n n' L e := by
  have hannounce : announce e = pure () := by
    cases e with
    | assign | increment => simp [announce, announceTarget, hwithin.1]
    | _ => rfl
  rw [lowerExpr_strict c hstrict, hannounce, pure_bind]
  have hgathers := (Gathers.nil (P := P) (c := c) (n := n)).lowerArguments hc
    (Source.within_of_mem_inTurn hwithin) (fun a ha id h => Source.assigns_of_mem_inTurn ha h)
    fun a ha => ih a ha true
  refine hgathers.bind fun operands n' h => (hcomplete operands n' h).mono fun L n'' hL => ?_
  exact ⟨hL.1, fun x hx => .inl (hL.2 x hx)⟩

/-! ## Assignments -/

/-- What the value of an assignment is lowered to, behind the sub-expressions of the target. -/
def assignedValue (c : Context) (target value : Source.Expr) (st : State) : Lowered :=
  (lowerExpr c value true (lowerTarget c target st).2).1

/-- An assignment is lowered in three steps: the sub-expressions of the target, the value, and the
operation on the place. -/
lemma lowerExpr_assign_eq {op : Option Source.BinaryOp} (st : State) :
    lowerExpr c (.assign i op target value) important st =
      (do
        let operands ← (lowerTarget c target st).1.add c (assignedValue c target value st)
        let place ← placeOf c target operands.values.dropLast
        let stored ← assignPlace c op target value place operands.last important
        return { stored with before := operands.before ++ stored.before } : Lower Lowered)
        (lowerExpr c value true (lowerTarget c target st).2).2 :=
  rfl

/-- An assignment through an operator reads its target behind the statements of its value. -/
lemma lowerExpr_compound (hc : Grounded P c) (i : Source.Info) (important : Bool)
    {op : Source.BinaryOp} (hop : op.isShortCircuit = false) (htarget : target.isTarget = true)
    (hwithin : target.Within c other true)
    (hoperands : ∀ n, Yields (lowerTarget c target) n fun operands n' =>
      Gathers P c A n n' operands target.operands)
    (hvalue : ∀ n, Yields (lowerExpr c value true) n fun M n' => Faithful P c true n n' M value)
    (hA : ∀ k, target.isVariable k = true ∨ target.assigns k = true ∨ value.assigns k = true →
      A k) (st : State) :
    ∃ L n', lowerExpr c (.assign i (some op) target value) important st =
        (L, { st with next := n' }) ∧
      ∃ n₁ n₂, Faithful P c true n₁ n₂ (assignedValue c target value st) value ∧
        ModifiesLate P c A important st.next n' target (op.apply P target.type value.type)
          (assignedValue c target value st) L := by
  obtain ⟨operands, n₁, hO, hgathers⟩ := hoperands st.next st rfl
  obtain ⟨M, n₂, hM, hfaithful⟩ := hvalue n₁ { st with next := n₁ } rfl
  obtain ⟨L, n', hL, hlate⟩ := hgathers.modifies_late hc important
    (hfaithful.lowers.weaken fun k hk => hA k (Or.inr (Or.inr hk))) hop htarget hwithin
    (fun k hk => hA k (Or.inl hk)) { st with next := n₂ } rfl
  have hvalue : assignedValue c target value st = M := by rw [assignedValue, hO, hM]
  rw [lowerExpr_assign_eq, hvalue, hO, hM]
  exact ⟨L, n', hL, n₁, n₂, hfaithful, hlate⟩

/-- Lowering the sub-expressions of a target. -/
lemma yields_lowerTarget (hc : Grounded P c) {target : Source.Expr}
    (htarget : target.isTarget = true) (hwithin : target.Within c other true)
    (ih : ∀ a ∈ target.operands, ∀ n, a.value.Within c other true →
      Yields (lowerExpr c a.value true) n fun L n' => Faithful P c true n n' L a.value)
    (hA : ∀ id, target.assigns id = true → A id) :
    Yields (lowerTarget c target) n fun operands n' =>
      Gathers P c A n n' operands target.operands := by
  rw [lowerTarget_eq, announceTarget, if_pos htarget, pure_bind]
  exact Gathers.nil.lowerArguments hc (Source.within_of_mem_operands hwithin)
    (fun a ha id h => hA id (Source.assigns_of_mem_operands ha h)) ih

/-- An assignment through an operator is faithful where reading its target late makes no
difference. -/
lemma yields_lowerExpr_compound (hc : Grounded P c) {op : Source.BinaryOp}
    (hop : op.isShortCircuit = false)
    (hseq : IsDirect c value ∨ ∃ id, c.IsPlain target id ∧ value.assigns id = false)
    (htarget : target.isTarget = true) (hwithin : target.Within c other true)
    (hoperands : ∀ n, Yields (lowerTarget c target) n fun operands n' =>
      Gathers P c (fun id => (Source.Expr.assign i (some op) target value).assigns id = true) n n'
        operands target.operands)
    (hvalue : ∀ n, Yields (lowerExpr c value true) n fun M n' => Faithful P c true n n' M value) :
    Yields (lowerExpr c (.assign i (some op) target value) important) n fun L n' =>
      Faithful P c important n n' L (.assign i (some op) target value) := by
  rintro st rfl
  obtain ⟨L, n', hstep, n₁, n₂, hM, hlate⟩ := lowerExpr_compound hc i important hop htarget hwithin
    hoperands hvalue (by simp [Source.Expr.assigns, or_assoc]) st
  have hreads : Undisturbed P c target (assignedValue c target value st) := by
    rcases hseq with hdirect | ⟨id, hplain, hassigns⟩
    · exact undisturbed_nil (hdirect _)
    · exact undisturbed_variable hc hM.lowers hplain (by simp [hassigns])
  refine ⟨L, n', hstep, ?_, fun x hx => .inl (hlate.ident x hx)⟩
  exact (hlate.lowers hc hM.lowers hreads).congr fun s => by simp only [Source.Expr.eval]

/-! ## The induction -/

/-- A strict expression of the fragment is faithful if its operands are. -/
lemma yields_strict (hc : Grounded P c) (hother : other.IsSequential c)
    (hstrict : e.isStrict = true) (hwithin : e.Within c other important)
    (ih : ∀ a ∈ e.inTurn, ∀ important n, a.value.Within c other important →
      Yields (lowerExpr c a.value important) n fun L n' => Faithful P c important n n' L a.value) :
    Yields (lowerExpr c e important) n fun L n' => Faithful P c important n n' L e := by
  have hcomplete := yields_of_complete (n := n) hc hstrict hwithin ih
  cases e with
  | constant i value =>
    simp only [lowerExpr]
    refine .pure ⟨lowers_constant value, fun x hx => ?_⟩
    cases value <;> cases hx
  | localVar i id =>
    obtain ⟨e, he, hlowers, hnames⟩ := lowers_variable hc hwithin
    simp only [lowerExpr, he, pure_bind]
    exact .pure ⟨hlowers, fun x hx => .inr (hnames x hx)⟩
  | this i =>
    simp only [lowerExpr]
    refine .pure ⟨?_, fun x hx => by cases hx⟩
    exact Lowers.of_expr ⟨fun _ _ => rfl, fun _ hx => by cases hx⟩ fun {g s t} _ => rfl
  | field i target id =>
    refine hcomplete fun operands n' h => ?_
    obtain ⟨object, hobject, hlowers⟩ := h.receiver hc hwithin.2
    obtain ⟨name, hname, hfield⟩ := lowers_field (i := i) hwithin.1 hlowers
    exact .of_lowers (by simp only [complete, hobject, hname, pure_bind]) hfield (fun _ => rfl)
      fun x hx => by cases hx
  | property i target id =>
    refine hcomplete fun operands n' h => ?_
    obtain ⟨object, hobject, hlowers⟩ := h.receiver hc hwithin.2
    obtain ⟨value, hvalue, hident, hproperty⟩ := lowers_property (i := i) hwithin.1 hlowers
    exact .of_lowers (by simp only [complete, hobject, hvalue, pure_bind]) hproperty (fun _ => rfl)
      hident
  | indexer i target id arguments =>
    refine hcomplete fun operands n' h => ?_
    obtain ⟨value, hvalue, hident, hlowers⟩ := h.indexer hwithin.1
    exact .of_lowers (by simp only [complete, hvalue, pure_bind]) hlowers
      (fun s => by simp only [Source.Expr.eval]) hident
  | element i array index =>
    exact hcomplete fun operands n' h => .of_lowers rfl h.element
      (fun s => by simp only [Source.Expr.eval]) fun x hx => by cases hx
  | call i target id arguments =>
    refine hcomplete fun operands n' h => ?_
    obtain ⟨object, name, hobject, hname, hlowers⟩ := h.call hc hwithin.1
      fun htarget => by rw [htarget] at hwithin; exact hwithin.2.1
    exact .of_lowers (by simp only [complete, hobject, hname, pure_bind]) hlowers
      (fun s => by simp only [Source.Expr.eval]) fun x hx => by cases hx
  | delegateCall i target arguments =>
    exact hcomplete fun operands n' h => .of_lowers rfl (h.delegateCall hwithin.1)
      (fun s => by simp only [Source.Expr.eval]) fun x hx => by cases hx
  | create i id arguments =>
    refine hcomplete fun operands n' h => ?_
    obtain ⟨value, hvalue, hident, hlowers⟩ := h.create hc hwithin.1
    exact .of_lowers (by simp only [complete, hvalue, pure_bind]) hlowers
      (fun s => by simp only [Source.Expr.eval]; rfl) hident
  | createArray i elements =>
    exact hcomplete fun operands n' h => .of_lowers rfl h.array
      (fun s => by simp only [Source.Expr.eval]) fun x hx => by cases hx
  | binary i op left right =>
    have hop : op.isShortCircuit = false := by simpa [Source.Expr.isStrict] using hstrict
    refine hcomplete fun operands n' h => .of_lowers rfl (h.binary hop)
      (fun s => by simp only [Source.Expr.eval, hop, Bool.false_eq_true, if_false]) fun x hx => ?_
    simp only [combine] at hx
    split at hx <;> cases hx
  | unary i op operand =>
    simp only [lowerExpr]
    refine (ih _ List.mem_cons_self true n hwithin).bind fun L n' hL => ?_
    exact .pure ⟨hL.lowers.unary, fun x hx => by cases hx⟩
  | assign i op target value =>
    obtain ⟨htarget, htargetWithin, hvalueWithin, hcases⟩ := hwithin
    cases op with
    | none =>
      refine hcomplete fun operands n' h => ?_
      refine (h.store hc htarget htargetWithin (fun k hk => by simp [Source.Expr.assigns, hk])
        fun himportant hindexer => h.undelayed hc ?_).mono fun L n'' hL => ?_
      · rcases hcases with ⟨-, hnot⟩ | hseq
        · exact absurd hindexer (hnot himportant)
        · exact hother none target value important hseq
      · exact ⟨hL.1.congr fun s => by simp only [Source.Expr.eval], hL.2⟩
    | some op =>
      rcases hcases with ⟨⟨⟩, -⟩ | hseq
      obtain ⟨hop, hreads⟩ := hother (some op) target value important hseq
      have hoperand : ∀ a ∈ target.operands, ∀ n, a.value.Within c other true → _ := fun a ha =>
        ih a (List.mem_append_left _ ha) true
      exact yields_lowerExpr_compound hc hop hreads htarget htargetWithin
        (fun n => yields_lowerTarget hc htarget htargetWithin hoperand
          fun k hk => by simp [Source.Expr.assigns, hk])
        fun n =>
          ih (.mk .value value) (List.mem_append_right _ List.mem_cons_self) true n hvalueWithin
  | increment i kind target =>
    refine hcomplete fun operands n' h => ?_
    refine (h.increment hc important hwithin.1 hwithin.2
      fun k hk => by simp [Source.Expr.assigns, hk]).mono fun L n'' hL => ?_
    exact ⟨hL.1.congr fun s => by simp only [Source.Expr.eval], hL.2⟩
  | conditional | lambda => cases hstrict

/-- Lowering an expression of the fragment is faithful. -/
lemma yields_lowerExpr (hc : Grounded P c) (hother : other.IsSequential c) :
    ∀ (e : Source.Expr) (important : Bool) (n : ℕ), e.Within c other important →
      Yields (lowerExpr c e important) n fun L n' => Faithful P c important n n' L e := by
  refine (Source.tree_induction (Q := fun _ => True) ?_ ?_ ?_ ?_ ?_ fun _ _ _ => trivial).1
  · intro e hstrict ih important n hwithin
    exact yields_strict hc hother hstrict hwithin ih
  · intro i op left right hop hleft hright important n h
    have hA : ∀ k, left.assigns k = true ∨ right.assigns k = true →
        (Source.Expr.binary i op left right).assigns k = true := by
      simp [Source.Expr.assigns]
    simp only [lowerExpr, hop, if_true]
    refine (hleft true n h.1).bind fun L n₁ hL => ?_
    refine (hright true n₁ h.2).bind fun R n₂ hR => ?_
    refine (yields_shortCircuit hc hop important (hL.lowers.weaken fun k hk => hA k (.inl hk))
      (hR.lowers.weaken fun k hk => hA k (.inr hk))).mono fun M n' hM => ?_
    exact .of_lowers (hM.1.congr fun s => by simp only [Source.Expr.eval, hop, if_true]) hM.2
  · intro i condition whenTrue whenFalse hcondition htrue hfalse important n h
    have hA : ∀ k, condition.assigns k = true ∨ whenTrue.assigns k = true ∨
        whenFalse.assigns k = true →
        (Source.Expr.conditional i condition whenTrue whenFalse).assigns k = true := by
      simp [Source.Expr.assigns, or_assoc]
    simp only [lowerExpr]
    refine (hcondition true n h.1).bind fun L n₁ hL => ?_
    refine (htrue true n₁ h.2.1).bind fun L₁ n₂ hL₁ => ?_
    refine (hfalse true n₂ h.2.2).bind fun L₂ n₃ hL₂ => ?_
    refine (yields_choose hc important (hL.lowers.weaken fun k hk => hA k (.inl hk))
      (hL₁.lowers.weaken fun k hk => hA k (.inr (.inl hk)))
      (hL₂.lowers.weaken fun k hk => hA k (.inr (.inr hk)))).mono fun M n' hM => ?_
    exact .of_lowers (hM.1.congr fun s => by simp only [Source.Expr.eval]) hM.2
  · exact fun _ _ _ _ _ _ _ h => h.elim
  · exact fun _ _ _ _ _ _ _ h => h.elim

end

end Lowering

end ScriptCompiler
