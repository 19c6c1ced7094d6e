import ScriptCompiler.Proofs.Hoisting.Operands
import ScriptCompiler.Proofs.Hoisting.Updates

/-!
# Operations on operands

One lemma for each way in which lowering makes a value of its operands: members and calls, new
objects and arrays, operators, and the two constructs that do not evaluate all their operands.  A
lazy operator or a choice whose later part needs statements becomes a branch that leaves its result
in a temporary.
-/

namespace ScriptCompiler.Lowering

open Machine

variable {V H : Type*}

attribute [local simp] Script.Expr.mentions Script.anyMentions Script.Expr.writes Script.anyWrites

section

variable {P : Primitives V H} {c : Context} {A : VariableId → Prop} {important : Bool}
  {n n₁ n₂ n' : ℕ} {L : Lowered} {operands : Operands} {arguments : List Source.Argument}
  {e : Script.Expr} {source : Memory VariableId V H → V × Memory VariableId V H} {id : MemberId}
  {op : Source.BinaryOp} {t : Memory String V H} {s : Memory VariableId V H}

/-- A step on the values of all operands. -/
lemma Gathers.lowers (h : Gathers P c A n n' operands arguments) (he : Tame c A n' e)
    (act : List V → Action V H)
    (heval : ∀ t, e.eval P t =
      (Script.evalAll P operands.values t).2.act (act (Script.evalAll P operands.values t).1)) :
    Lowers P c A important n n' { before := operands.before, value := e } fun s =>
      (Source.evalArguments P c arguments s).2.act
        (act (Source.evalArguments P c arguments s).1) where
  le := h.le
  tame := he
  run := by
    intro g s t hm
    obtain ⟨t₁, hrun, hframe, hvs, hm₁⟩ := h.run hm
    obtain ⟨hv, hm₂⟩ := hm₁.act (act (Source.evalArguments P c arguments s).1)
    refine ⟨t₁, hrun, hframe, ?_, fun _ => ?_⟩
    · rw [heval, hvs]
      exact hm₂
    · rw [heval, hvs]
      exact hv

/-- A step on a single value. -/
lemma Lowers.act (h : Lowers P c A true n n' L source) (he : Tame c A n' e)
    (act : V → Action V H)
    (heval : ∀ t, e.eval P t = (L.value.eval P t).2.act (act (L.value.eval P t).1)) :
    Lowers P c A important n n' { L with value := e } fun s =>
      (source s).2.act (act (source s).1) where
  le := h.le
  tame := he
  run := by
    intro g s t hm
    obtain ⟨t₁, hrun, hframe, hm₁, hv⟩ := h.run hm
    obtain ⟨hr, hm₂⟩ := hm₁.act (act (source s).1)
    refine ⟨t₁, hrun, hframe, ?_, fun _ => ?_⟩
    · rw [heval, hv rfl]
      exact hm₂
    · rw [heval, hv rfl]
      exact hr

/-- A single expression that has the value of the source and changes nothing. -/
lemma Lowers.of_expr (he : Tame c A n e) {value : Memory VariableId V H → V}
    (heval : ∀ {g s} {t : Memory String V H}, Matches c g s t → e.eval P t = (value s, t)) :
    Lowers P c A important n n { value := e } fun s => (value s, s) where
  le := Nat.le_refl n
  tame := he
  run := by
    intro g s t hm
    refine ⟨t, Script.completes_nil t, Frame.of_vars_eq rfl, ?_, fun _ => ?_⟩
    · rw [heval hm]
      exact hm
    · rw [heval hm]

/-! ## Tame expressions -/

/-- A name of global meaning is tame. -/
lemma Denotes.tame (hc : Grounded P c) {v : V} (h : Denotes P e v)
    (hwrites : ∀ x, e.writes x = false) : Tame c A n e where
  fresh := by
    intro k _
    by_contra hmentions
    exact h.global (by simpa using hmentions) (hc.temporary_not_global k)
  writes := by
    intro x hx
    rw [hwrites x] at hx
    cases hx

/-- Dotted names assign nothing. -/
lemma dottedName_writes (name x : String) : (dottedName name).writes x = false := by
  have hfold : ∀ (rest : List String) (e : Script.Expr), e.writes x = false →
      (rest.foldl Script.Expr.member e).writes x = false := by
    intro rest
    induction rest with
    | nil => exact fun e he => he
    | cons name rest ih => exact fun e he => ih (.member e name) he
  unfold dottedName
  split
  · rfl
  · exact hfold _ _ rfl

/-! ## Receivers and members -/

/-- A use without target has an object that denotes a constant. -/
lemma implicitReceiver_eq (hc : Grounded P c) (h : c.HasReceiver id) :
    ∃ e, implicitReceiver c id = pure e ∧ Denotes P e (Source.implicitObject P c id) ∧
      ∀ x, e.writes x = false := by
  obtain ⟨m, hm, htype⟩ := h
  have hmember : getMember c id = pure m := by simp [getMember, require, hm]
  cases hstatic : m.isStatic with
  | true =>
    obtain ⟨type, hname⟩ := htype hstatic
    refine ⟨dottedName type, ?_, ?_, dottedName_writes type⟩
    · simp [implicitReceiver, hmember, hstatic, typeReference, hname, require]
    · simpa [Source.implicitObject, hm, hstatic] using hc.type hname
  | false =>
    refine ⟨.this, ?_, ⟨(fun hx => by cases hx), fun t => ?_⟩, fun _ => rfl⟩
    · simp [implicitReceiver, hmember, hstatic]
    · simp [Source.implicitObject, hm, hstatic, Script.Expr.eval]

/-- A field has a name, under which it is read and written. -/
lemma fieldName_eq (h : c.IsField id) :
    ∃ name, fieldName c id = pure name ∧
      (∀ object es, propertyPlace c object id es = pure (.direct (.member object name))) ∧
      ∀ (object : V) (vs : List V), Source.memberSlot P c id object vs = .member object name := by
  obtain ⟨name, hform | hform⟩ := h
  · exact ⟨name, by simp [fieldName, getForm_eq hform], by simp [propertyPlace, getForm_eq hform],
      by simp [Source.memberSlot, hform]⟩
  · exact ⟨name, by simp [fieldName, getForm_eq hform], by simp [propertyPlace, getForm_eq hform],
      by simp [Source.memberSlot, hform]⟩

/-- The script name of a method. -/
lemma methodName_eq (h : c.IsMethod id) :
    ∃ name, methodName c id = pure name ∧ ∀ (object : V) (vs : List V),
      Source.callMethod P c id object vs = P.call object name vs := by
  obtain ⟨name, hform⟩ := h
  exact ⟨name, by simp [methodName, getForm_eq hform], by simp [Source.callMethod, hform]⟩

/-- Reading a field, property or indexer is one step. -/
def memberValue (P : Primitives V H) (c : Context) (id : MemberId) (object : V)
    (vs : List V) : Action V H :=
  match c.naming.form? c.program id with
  | some (.field name) | some (.fieldProperty name) => P.readMember object name
  | some (.property getter _) => P.call object getter vs
  | some .nativeIndexer => P.getElement object (vs.headD P.null)
  | _ => fun s => (P.null, s)

/-- The slot of a member has the value of the member. -/
lemma memberSlot_read (id : MemberId) (object : V) (vs : List V) (s : Memory VariableId V H) :
    (Source.memberSlot P c id object vs).read P s = s.act (memberValue P c id object vs) := by
  unfold Source.memberSlot memberValue
  generalize c.naming.form? c.program id = form
  rcases form with _ | form
  · rfl
  · cases form <;> rfl

/-- The value of a field, property or indexer of an object. -/
lemma getProperty_member {object : Script.Expr} {es : List Script.Expr}
    (h : c.IsIndexer id es.length ∨ (c.IsField id ∨ c.IsAccessor id) ∧ es = [])
    (hes : ∀ e ∈ object :: es, Tame c A n e) :
    ∃ e, getProperty c object id es = pure e ∧ Tame c A n e ∧ (∀ x, e ≠ .ident x) ∧
      ∀ t : Memory String V H, e.eval P t = (Script.evalAll P (object :: es) t).2.act
        (memberValue P c id ((Script.evalAll P (object :: es) t).1.headD P.null)
          (Script.evalAll P (object :: es) t).1.tail) := by
  have haccessor : ∀ {getter setter}, c.naming.form? c.program id = some (.property getter setter) →
      ∃ e, getProperty c object id es = pure e ∧ Tame c A n e ∧ (∀ x, e ≠ .ident x) ∧
        ∀ t : Memory String V H, e.eval P t = (Script.evalAll P (object :: es) t).2.act
          (memberValue P c id ((Script.evalAll P (object :: es) t).1.headD P.null)
            (Script.evalAll P (object :: es) t).1.tail) := by
    intro getter setter hform
    refine ⟨_, getProperty_eq object es hform, tame_call getter hes, (fun x hx => by cases hx),
      fun t => ?_⟩
    simp only [Script.Expr.eval_call_member, memberValue, hform, Script.evalAll,
      List.headD_cons, List.tail_cons]
  have hmember : ∀ name, Tame c A n (.member object name) := fun name =>
    Tame.of_parts [object] (by simpa using hes object List.mem_cons_self)
      (fun x hx => by simpa using hx)
      (fun x hx => by simpa using hx)
  rcases h with (⟨getter, setter, hform⟩ | ⟨hform, hlength⟩) | ⟨⟨name, hform⟩ |
    ⟨getter, setter, hform⟩, rfl⟩
  · exact haccessor hform
  · obtain ⟨key, rfl⟩ := List.length_eq_one_iff.mp hlength
    refine ⟨.index object key, by simp [getProperty, getForm_eq hform], ?_,
      (fun x hx => by cases hx), fun t => ?_⟩
    · exact Tame.of_parts _ hes
        (fun x hx => by simpa using hx)
        (fun x hx => by simpa using hx)
    · simp [Script.Expr.eval, memberValue, hform, Script.evalAll]
  · refine ⟨.member object name, ?_, hmember name, (fun x hx => by cases hx), fun t => ?_⟩
    · rcases hform with hform | hform <;> simp [getProperty, getForm_eq hform]
    · rcases hform with hform | hform <;>
        simp [Script.Expr.eval, memberValue, hform, Script.evalAll]
  · exact haccessor hform

/-! ## Calls -/

/-- Operands for arguments with a first one have a first one. -/
lemma Gathers.values_cons {a : Source.Argument}
    (h : Gathers P c A n n' operands (a :: arguments)) :
    ∃ e es, operands.values = e :: es ∧ es.length = arguments.length := by
  obtain ⟨e, es, -, hes, hvalues⟩ := List.forall₂_cons_right_iff.mp h.stands
  exact ⟨e, es, hvalues, hes.length_eq⟩

/-- A method is called on its object and its arguments. -/
lemma Gathers.call (hc : Grounded P c) {id : MemberId} {target : Option Source.Expr}
    (h : Gathers P c A n n' operands ((target.map (.mk .value)).toList ++ arguments))
    (hmethod : c.IsMethod id) (hreceiver : target = none → c.HasReceiver id) :
    ∃ object name, placeReceiver c id target operands.values = pure object ∧
      methodName c id = pure name ∧
      Lowers P c A important n n'
        { before := operands.before
          value := .call (.member object name)
            (if target.isSome then operands.rest else operands.values) }
        fun s =>
          let o := Source.evalReceiver P c id target s
          let vs := Source.evalArguments P c arguments o.2
          vs.2.act (Source.callMethod P c id o.1 vs.1) := by
  obtain ⟨name, hname, hcall⟩ := methodName_eq (P := P) hmethod
  cases target with
  | none =>
    obtain ⟨object, hobject, hdenotes, hwrites⟩ := implicitReceiver_eq hc (hreceiver rfl)
    refine ⟨object, name, hobject, hname, ?_⟩
    have htame : Tame c A n' (.call (.member object name) operands.values) := by
      refine tame_call name fun e he => ?_
      rcases List.mem_cons.mp he with rfl | he
      · exact hdenotes.tame hc hwrites
      · exact h.tame e he
    refine h.lowers htame (fun vs => Source.callMethod P c id (Source.implicitObject P c id) vs) ?_
    intro t
    simp only [Script.Expr.eval_call_member, hdenotes.eval, hcall]
  | some o =>
    have hcons : Gathers P c A n n' operands (.mk .value o :: arguments) := h
    obtain ⟨e, es, hvalues, -⟩ := hcons.values_cons
    refine ⟨e, name, by simp [placeReceiver, hvalues], hname, ?_⟩
    have htame : Tame c A n' (.call (.member e name) es) :=
      tame_call name fun e' he' => h.tame e' (by rw [hvalues]; exact he')
    simp only [Option.isSome_some, if_true, Operands.rest, hvalues, List.tail_cons]
    refine h.lowers htame (fun vs => Source.callMethod P c id (vs.headD P.null) vs.tail) ?_
    intro t
    simp only [Script.Expr.eval_call_member, hvalues, Script.evalAll, hcall, List.headD_cons,
      List.tail_cons]

/-- A function value is called on its arguments. -/
lemma Gathers.delegateCall {target : Source.Expr}
    (h : Gathers P c A n n' operands (.mk .value target :: arguments))
    (hcallable : IsCallable c target) :
    Lowers P c A important n n'
      { before := operands.before, value := .call operands.first operands.rest } fun s =>
        let f := target.eval P c s
        let vs := Source.evalArguments P c arguments f.2
        vs.2.act (P.invoke f.1 vs.1) := by
  obtain ⟨e, es, hstands, -, hvalues⟩ := List.forall₂_cons_right_iff.mp h.stands
  have hmember := hstands.callable target rfl hcallable
  simp only [Operands.first, Operands.rest, hvalues, List.headD_cons, List.tail_cons]
  have htame : Tame c A n' (.call e es) :=
    Tame.of_parts (e :: es) (hvalues ▸ h.tame) (fun _ hx => hx) fun _ hx => hx
  refine h.lowers htame (fun vs => P.invoke (vs.headD P.null) vs.tail) fun t => ?_
  simp only [Script.Expr.eval_call hmember, hvalues, Script.evalAll, List.headD_cons,
    List.tail_cons]

/-- The value of an indexer. -/
lemma Gathers.indexer {id : MemberId} {target : Source.Expr}
    (h : Gathers P c A n n' operands (.mk .value target :: arguments))
    (hindexer : c.IsIndexer id arguments.length) :
    ∃ e, getProperty c operands.first id operands.rest = pure e ∧ (∀ x, e ≠ .ident x) ∧
      Lowers P c A important n n' { before := operands.before, value := e } fun s =>
        let o := target.eval P c s
        let vs := Source.evalArguments P c arguments o.2
        (Source.memberSlot P c id o.1 vs.1).read P vs.2 := by
  obtain ⟨object, es, hvalues, hlength⟩ := h.values_cons
  simp only [Operands.first, Operands.rest, hvalues, List.headD_cons, List.tail_cons]
  obtain ⟨e, hget, htame, hident, heval⟩ :=
    getProperty_member (P := P) (Or.inl (hlength ▸ hindexer)) (hvalues ▸ h.tame)
  refine ⟨e, hget, hident, ?_⟩
  simp only [memberSlot_read]
  exact h.lowers htame (fun vs => memberValue P c id (vs.headD P.null) vs.tail)
    fun t => by rw [heval, hvalues]

/-- An element of an array. -/
lemma Gathers.element {array index : Source.Expr}
    (h : Gathers P c A n n' operands [.mk .value array, .mk .value index]) :
    Lowers P c A important n n'
      { before := operands.before, value := .index operands.first operands.second } fun s =>
        let o := array.eval P c s
        let k := index.eval P c o.2
        k.2.act (P.getElement o.1 k.1) := by
  obtain ⟨e, es, hvalues, hlength⟩ := h.values_cons
  obtain ⟨k, rfl⟩ := List.length_eq_one_iff.mp hlength
  simp only [Operands.first, Operands.second, Operands.rest, hvalues, List.headD_cons,
    List.tail_cons]
  have htame : Tame c A n' (.index e k) := Tame.of_parts _ (hvalues ▸ h.tame)
    (fun x hx => by simpa using hx)
    (fun x hx => by simpa using hx)
  refine h.lowers htame (fun vs => P.getElement (vs.headD P.null) (vs.tail.headD P.null))
    fun t => ?_
  simp only [Script.Expr.eval, hvalues, Script.evalAll, List.headD_cons, List.tail_cons]

/-- A constructor is called on its arguments. -/
lemma Gathers.create (hc : Grounded P c) (h : Gathers P c A n n' operands arguments)
    (hconstructor : c.IsConstructor id) :
    ∃ e, createObject c id operands.values = pure e ∧ (∀ x, e ≠ .ident x) ∧
      Lowers P c A important n n' { before := operands.before, value := e } fun s =>
        let vs := Source.evalArguments P c arguments s
        vs.2.act (P.construct (P.constructorValue id) vs.1) := by
  obtain ⟨m, name, type, hm, hform, htype⟩ := hconstructor
  have hnew : ∀ e : Script.Expr, Denotes P e (P.constructorValue id) →
      (∀ x, e.writes x = false) →
      Lowers P c A important n n' { before := operands.before, value := .new e operands.values }
        fun s =>
          let vs := Source.evalArguments P c arguments s
          vs.2.act (P.construct (P.constructorValue id) vs.1) := by
    intro e hdenotes hwrites
    have htame : Tame c A n' (.new e operands.values) := by
      refine Tame.of_parts (e :: operands.values) (fun e' he' => ?_) (fun _ hx => hx) fun _ hx => hx
      rcases List.mem_cons.mp he' with rfl | he'
      · exact hdenotes.tame hc hwrites
      · exact h.tame e' he'
    refine h.lowers htame (fun vs => P.construct (P.constructorValue id) vs) fun t => ?_
    simp only [Script.Expr.eval, hdenotes.eval]
  have hmember : getMember c id = pure m := by simp [getMember, require, hm]
  have hreference : typeReference c m.declaringType = pure (dottedName type) := by
    simp [typeReference, htype, require]
  cases name with
  | none =>
    refine ⟨.new (dottedName type) operands.values, ?_, (fun x hx => by cases hx),
      hnew _ ?_ (dottedName_writes type)⟩
    · simp [createObject, hmember, hreference, getForm_eq hform]
    · rw [hc.constructor hm hform]
      exact hc.type htype
  | some name =>
    refine ⟨.new (.member (dottedName type) name) operands.values, ?_, (fun x hx => by cases hx),
      hnew _ (hc.namedConstructor hm hform htype) (dottedName_writes type)⟩
    simp [createObject, hmember, hreference, getForm_eq hform]

/-- An array of its elements. -/
lemma Gathers.array {elements : List Source.Expr}
    (h : Gathers P c A n n' operands (elements.map (.mk .value))) :
    Lowers P c A important n n' { before := operands.before, value := .array operands.values }
      fun s =>
        let vs := Source.evalElements P c elements s
        vs.2.act (P.array vs.1) := by
  have htame : Tame c A n' (.array operands.values) :=
    Tame.of_parts _ h.tame (fun _ hx => hx) fun _ hx => hx
  simp only [Source.evalElements_eq]
  exact h.lowers htame (fun vs => P.array vs) fun t => rfl

/-! ## Operators -/

/-- An operator that evaluates both operands. -/
lemma Gathers.binary {left right : Source.Expr}
    (h : Gathers P c A n n' operands [.mk .value left, .mk .value right])
    (hop : op.isShortCircuit = false) :
    Lowers P c A important n n'
      { before := operands.before
        value := combine op (isIntegerDivision op left right) operands.first operands.second }
      fun s =>
        let a := left.eval P c s
        let b := right.eval P c a.2
        b.2.act (op.apply P left.type right.type a.1 b.1) := by
  obtain ⟨e, es, hvalues, hlength⟩ := h.values_cons
  obtain ⟨k, rfl⟩ := List.length_eq_one_iff.mp hlength
  simp only [Operands.first, Operands.second, Operands.rest, hvalues, List.headD_cons,
    List.tail_cons]
  have htame : Tame c A n' (combine op (isIntegerDivision op left right) e k) :=
    tame_combine _ (h.tame e (by simp [hvalues])) (h.tame k (by simp [hvalues]))
  refine h.lowers htame
    (fun vs => op.apply P left.type right.type (vs.headD P.null) (vs.tail.headD P.null))
    fun t => ?_
  simp only [eval_combine hop, hvalues, Script.evalAll, List.headD_cons, List.tail_cons]

/-- A unary operator. -/
lemma Lowers.unary {op : Source.UnaryOp} (h : Lowers P c A true n n' L source) :
    Lowers P c A important n n' { L with value := .unary (unaryOp op) L.value } fun s =>
      (source s).2.act (P.unary op.operation (source s).1) := by
  have hupdate : (unaryOp op).isUpdate = false := by cases op <;> rfl
  have hoperation : unaryOp op = op.operation := by cases op <;> rfl
  have htame : Tame c A n' (.unary (unaryOp op) L.value) :=
    Tame.of_parts [L.value] (by simpa using h.tame)
      (fun x hx => by simpa using hx)
      (fun x hx => by simpa [hupdate] using hx)
  refine h.act htame (fun v => P.unary op.operation v) fun t => ?_
  rw [← hoperation]
  simp only [Script.Expr.eval, hupdate, Bool.false_eq_true, if_false]

/-! ## Operands that may not be evaluated -/

/-- Statements that end by giving a temporary the lowered value. -/
lemma Lowers.capture (hc : Grounded P c) (h : Lowers P c A true n n₁ L source) {k : ℕ} (hk : n₁ ≤ k)
    {last : Script.Stmt} (hlast : ∀ t, Script.Completes P [last] t
      ((L.value.eval P t).2.set (c.temporaryName k) (L.value.eval P t).1)) {g : String → V}
    (hm : Matches c g s t) :
    ∃ t', Script.Completes P (L.before ++ [last]) t t' ∧ Frame c A n (k + 1) t t' ∧
      Matches c g (source s).2 t' ∧ t'.vars (c.temporaryName k) = (source s).1 := by
  have hn := h.le
  obtain ⟨t₁, hrun, hframe, hm₁, hv⟩ := h.run hm
  refine ⟨_, hrun.append (hlast t₁), ?_, hm₁.set_temporary hc k _, ?_⟩
  · have h₁ := hframe.mono (Nat.le_refl n) (by omega : n₁ ≤ k + 1)
    have h₂ := (h.tame.frame (P := P) n t₁).mono (Nat.le_refl n) (by omega : n ≤ k + 1)
    have h₃ := (Frame.set_temporary (c := c) (A := A) k (L.value.eval P t₁).1
      (L.value.eval P t₁).2).mono (by omega : n ≤ k) (Nat.le_refl (k + 1))
    exact (h₁.trans h₂).trans h₃
  · rw [Memory.set_self, hv rfl]

/-- A result that branches leave in a temporary. -/
lemma Lowers.of_temporary (hc : Grounded P c) {before : List Script.Stmt} {k : ℕ} (hn : n ≤ k)
    (hrun : ∀ {g s} {t : Memory String V H}, Matches c g s t →
      ∃ t', Script.Completes P before t t' ∧ Frame c A n (k + 1) t t' ∧
        Matches c g (source s).2 t' ∧ t'.vars (c.temporaryName k) = (source s).1) :
    Lowers P c A important n (k + 1) { before, value := .ident (c.temporaryName k) } source where
  le := by omega
  tame := tame_temporary k
  run := by
    intro g s t hm
    obtain ⟨t', hcompletes, hframe, hm', hv⟩ := hrun hm
    refine ⟨t', hcompletes, hframe, hm', fun _ => ?_⟩
    simp only [Script.Expr.eval, hc.lookup_temporary, hv]

/-- The left operand settles a lazy operator in the script if it does in the source. -/
lemma settles_binaryOp (op : Source.BinaryOp) (v : V) :
    Script.settles P (binaryOp op) v = op.settled P v := by
  cases op <;> rfl

/-- The test on the left operand asks for the right one unless the operator is settled. -/
lemma eval_continuesOn (hop : op.isShortCircuit = true) {v : V} (he : e.eval P t = (v, t)) :
    P.truthy ((continuesOn op e).eval P t).1 = !op.settled P v ∧
      ((continuesOn op e).eval P t).2 = t := by
  cases op with
  | logicalAnd => simp [continuesOn, he, Source.BinaryOp.settled]
  | logicalOr =>
    simp [continuesOn, Script.Expr.eval, Script.UnaryOp.isUpdate, he, Memory.act, P.unary_not,
      P.truthy_ofBool, Source.BinaryOp.settled]
  | nullCoalescing =>
    simp [continuesOn, Script.Expr.eval, Script.BinaryOp.isLazy, he, Memory.act, P.equal_null,
      P.truthy_ofBool, Source.BinaryOp.settled]
  | _ => cases hop

/-- The statements of the right operand run under a test of the left one, which a temporary
holds. -/
lemma Lowers.run_continuesOn (hc : Grounded P c) (hop : op.isShortCircuit = true)
    (h : Lowers P c A true n₁ n₂ L source) {g : String → V} (hm : Matches c g s t) {v : V}
    (hv : t.vars (c.temporaryName n₂) = v) :
    ∃ t', Script.Completes P [.branch (continuesOn op (.ident (c.temporaryName n₂)))
          (.block (L.before ++ [.expr (.set (.ident (c.temporaryName n₂)) L.value)])) none] t t' ∧
      Frame c A n₁ (n₂ + 1) t t' ∧
      Matches c g (if op.settled P v then (v, s) else source s).2 t' ∧
      t'.vars (c.temporaryName n₂) = (if op.settled P v then (v, s) else source s).1 := by
  have hresult : (Script.Expr.ident (c.temporaryName n₂)).eval P t = (v, t) := by
    simp only [Script.Expr.eval, hc.lookup_temporary, hv]
  obtain ⟨htest, hsame⟩ := eval_continuesOn hop hresult
  cases hsettled : op.settled P v with
  | true =>
    rw [hsettled] at htest
    refine ⟨_, Script.completes_branch_skip htest, ?_⟩
    rw [hsame]
    exact ⟨Frame.of_vars_eq rfl, hm, hv⟩
  | false =>
    rw [hsettled] at htest
    obtain ⟨t₁, hrun, hframe, hm₁, hv₁⟩ := h.capture hc (Nat.le_refl n₂)
      (Script.completes_set (c.temporaryName n₂) L.value) hm
    exact ⟨t₁, Script.completes_branch_true htest (by rwa [hsame]), hframe, hm₁, hv₁⟩

/-- A lazy operator evaluates its right operand only if the left one does not settle it. -/
lemma yields_shortCircuit (hc : Grounded P c) (hop : op.isShortCircuit = true)
    {left right : Lowered} {source' : Memory VariableId V H → V × Memory VariableId V H}
    (important : Bool) (hl : Lowers P c A true n n₁ left source)
    (hr : Lowers P c A true n₁ n₂ right source') :
    Yields (shortCircuit c op left right) n₂ fun L n' =>
      Lowers P c A important n n' L (fun s =>
        if op.settled P (source s).1 then source s else source' (source s).2) ∧
      ∀ x, L.value = .ident x → ∃ k, x = c.temporaryName k := by
  have hn := hl.le
  have hn₁ := hr.le
  simp only [shortCircuit]
  split
  · -- both operands stand in one expression
    rename_i hempty
    have hdirect : right.before = [] := List.isEmpty_iff.mp hempty
    refine .pure ⟨⟨by omega, ?_, fun {g s t} hm => ?_⟩, fun x hx => by cases hx⟩
    · refine Tame.of_parts [left.value, right.value] ?_
        (fun x hx => by simpa using hx)
        (fun x hx => by simpa using hx)
      simpa using ⟨hl.tame.mono hn₁, hr.tame⟩
    · obtain ⟨t₁, hrun, hframe, hm₁, hv⟩ := hl.run hm
      obtain ⟨hm₂, hv₂⟩ := hr.run_direct hdirect hm₁
      refine ⟨t₁, hrun, hframe.mono (Nat.le_refl n) hn₁, ?_⟩
      have hlazy : (binaryOp op).isLazy = true := (isLazy_binaryOp op).trans hop
      simp only [Script.Expr.eval, hlazy, if_true, settles_binaryOp, hv rfl]
      split
      · exact ⟨hm₁, fun _ => hv rfl⟩
      · exact ⟨hm₂, fun _ => hv₂ rfl⟩
  · refine (yields_newTemporary c n₂).bind fun x n₃ hx => ?_
    obtain ⟨rfl, rfl⟩ := hx
    refine .pure ⟨?_, fun x hx => ⟨n₂, by cases hx; rfl⟩⟩
    refine Lowers.of_temporary hc (by omega) fun {g s t} hm => ?_
    obtain ⟨t₁, hrun₁, hframe₁, hm₁, hv₁⟩ :=
      hl.capture hc hn₁ (Script.completes_var (c.temporaryName n₂) left.value) hm
    obtain ⟨t₂, hrun₂, hframe₂, hm₂, hv₂⟩ := hr.run_continuesOn hc hop hm₁ hv₁
    refine ⟨t₂, ?_, hframe₁.trans (hframe₂.mono hn (Nat.le_refl _)), hm₂, hv₂⟩
    have hrun := hrun₁.append hrun₂
    rwa [List.append_assoc] at hrun

/-- The statements of one of two values run under a test. -/
lemma Lowers.run_branches (hc : Grounded P c) {whenTrue whenFalse : Lowered}
    {source₁ source₂ : Memory VariableId V H → V × Memory VariableId V H}
    (htrue : Lowers P c A true n n₁ whenTrue source₁)
    (hfalse : Lowers P c A true n₁ n₂ whenFalse source₂) {g : String → V}
    (hm : Matches c g s (e.eval P t).2) {v : V} (hv : (e.eval P t).1 = v) :
    ∃ t', Script.Completes P [.branch e
          (.block (whenTrue.before ++ [.expr (.set (.ident (c.temporaryName n₂)) whenTrue.value)]))
          (some (.block (whenFalse.before ++
            [.expr (.set (.ident (c.temporaryName n₂)) whenFalse.value)])))] t t' ∧
      Frame c A n (n₂ + 1) (e.eval P t).2 t' ∧
      Matches c g (if P.truthy v then source₁ s else source₂ s).2 t' ∧
      t'.vars (c.temporaryName n₂) = (if P.truthy v then source₁ s else source₂ s).1 := by
  cases htest : P.truthy v with
  | true =>
    obtain ⟨t₁, hrun, hframe, hm₁, hv₁⟩ := htrue.capture hc hfalse.le
      (Script.completes_set (c.temporaryName n₂) whenTrue.value) hm
    rw [← hv] at htest
    exact ⟨t₁, Script.completes_branch_true htest hrun, hframe, hm₁, hv₁⟩
  | false =>
    obtain ⟨t₁, hrun, hframe, hm₁, hv₁⟩ := hfalse.capture hc (Nat.le_refl n₂)
      (Script.completes_set (c.temporaryName n₂) whenFalse.value) hm
    rw [← hv] at htest
    exact ⟨t₁, Script.completes_branch_false htest hrun,
      hframe.mono htrue.le (Nat.le_refl _), hm₁, hv₁⟩

/-- A choice evaluates one of its two values. -/
lemma yields_choose (hc : Grounded P c) {n₃ : ℕ} {condition whenTrue whenFalse : Lowered}
    {source₁ source₂ : Memory VariableId V H → V × Memory VariableId V H} (important : Bool)
    (hcond : Lowers P c A true n n₁ condition source)
    (htrue : Lowers P c A true n₁ n₂ whenTrue source₁)
    (hfalse : Lowers P c A true n₂ n₃ whenFalse source₂) :
    Yields (choose c condition whenTrue whenFalse) n₃ fun L n' =>
      Lowers P c A important n n' L (fun s =>
        if P.truthy (source s).1 then source₁ (source s).2 else source₂ (source s).2) ∧
      ∀ x, L.value = .ident x → ∃ k, x = c.temporaryName k := by
  have hn := hcond.le
  have hn₁ := htrue.le
  have hn₂ := hfalse.le
  simp only [choose]
  split
  · -- both values stand in one expression
    rename_i hempty
    simp only [Bool.and_eq_true, List.isEmpty_iff] at hempty
    refine .pure ⟨⟨by omega, ?_, fun {g s t} hm => ?_⟩, fun x hx => by cases hx⟩
    · refine Tame.of_parts [condition.value, whenTrue.value, whenFalse.value] ?_
        (fun x hx => by simpa [and_assoc] using hx)
        (fun x hx => by simpa [and_assoc] using hx)
      simpa using ⟨hcond.tame.mono (by omega), htrue.tame.mono hn₂, hfalse.tame⟩
    · obtain ⟨t₁, hrun, hframe, hm₁, hv⟩ := hcond.run hm
      refine ⟨t₁, hrun, hframe.mono (Nat.le_refl n) (by omega), ?_⟩
      simp only [Script.Expr.eval, hv rfl]
      split
      · obtain ⟨hm₂, hv₂⟩ := htrue.run_direct hempty.1 hm₁
        exact ⟨hm₂, fun _ => hv₂ rfl⟩
      · obtain ⟨hm₂, hv₂⟩ := hfalse.run_direct hempty.2 hm₁
        exact ⟨hm₂, fun _ => hv₂ rfl⟩
  · refine (yields_newTemporary c n₃).bind fun x n₄ hx => ?_
    obtain ⟨rfl, rfl⟩ := hx
    refine .pure ⟨?_, fun x hx => ⟨n₃, by cases hx; rfl⟩⟩
    refine Lowers.of_temporary hc (by omega) fun {g s t} hm => ?_
    obtain ⟨t₁, hrun₁, hframe₁, hm₁, hv₁⟩ := hcond.run hm
    obtain ⟨t₂, hrun₂, hframe₂, hm₂, hv₂⟩ := htrue.run_branches hc hfalse hm₁ (hv₁ rfl)
    have hdeclared := hrun₁.append (Script.completes_var_none (P := P) (c.temporaryName n₃) t₁)
    have hrun := hdeclared.append hrun₂
    rw [List.append_assoc] at hrun
    refine ⟨t₂, hrun, ?_, hm₂, hv₂⟩
    have h₁ := hframe₁.mono (Nat.le_refl n) (by omega : n₁ ≤ n₃ + 1)
    have h₂ := (hcond.tame.frame (P := P) n t₁).mono (Nat.le_refl n) (by omega : n ≤ n₃ + 1)
    exact (h₁.trans h₂).trans (hframe₂.mono hn (Nat.le_refl _))

end

end ScriptCompiler.Lowering
