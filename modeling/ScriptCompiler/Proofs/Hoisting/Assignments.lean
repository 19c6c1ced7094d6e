import ScriptCompiler.Proofs.Hoisting.Operations

/-!
# Assignments and updates of source targets

The place that lowering makes of a target denotes the slot that the source finds (`PlaceFor`).
With what is known of the operations on places, this gives the three kinds of assignment: plain
ones, those through an operator, and increments and decrements.

An assignment through an operator reads its target when the statements of the value have run
already (`ModifiesLate`).  That is too late in general.  It is not if reading the target behind the
statements comes to the same as reading it ahead of them (`Undisturbed`).
-/

namespace ScriptCompiler.Lowering

open Machine

variable {V H : Type*}

/-- The place denotes the slot of the target whose sub-expressions were lowered to `es`. -/
structure PlaceFor (P : Primitives V H) (c : Context) (A : VariableId → Prop) (n : ℕ)
    (target : Source.Expr) (es : List Script.Expr) (place : Place) : Prop where
  assignable : place.Assignable c A n
  accessor : ∀ {object id arguments}, place = .accessor object id arguments →
    (∃ e, place.parts = [e]) ∨ c.IsAccessorIndexer target ∧ place.parts = es
  state : ∀ t : Memory String V H,
    (Script.evalAll P place.parts t).2 = (Script.evalAll P es t).2
  same : ∀ {s : Memory VariableId V H} {t : Memory String V H},
    (∀ {id v}, c.scope.get? id = some v → v.byReference = true → t.vars v.name = s.vars id) →
    Slot.Same c.Names (target.slotOf P c (Script.evalAll P es t).1 s)
      (place.locate P c (Script.evalAll P place.parts t).1 t)

section

variable {P : Primitives V H} {c : Context} {A : VariableId → Prop} {other : Condition}
  {n n₁ n₂ n' : ℕ} {target : Source.Expr} {es : List Script.Expr} {arguments : List Source.Argument}
  {operands : Operands} {source : Memory VariableId V H → V × Memory VariableId V H}
  {i : Source.Info} {object : Option Source.Expr}

/-- The object of a place has the value of the object of the target. -/
lemma placeReceiver_eq (hc : Grounded P c) {id : MemberId}
    (hwithin : Source.receiverWithin c other id object) (hes : ∀ e ∈ es, Tame c A n e)
    (hlength : es.length = ((object.map (Source.Argument.mk .value)).toList).length) :
    ∃ e, placeReceiver c id object es = pure e ∧ Tame c A n e ∧
      ∀ t : Memory String V H, e.eval P t =
        (Source.objectOf P c id object (Script.evalAll P es t).1, (Script.evalAll P es t).2) := by
  cases object with
  | none =>
    obtain rfl : es = [] := List.length_eq_zero_iff.mp hlength
    obtain ⟨e, he, hdenotes, hwrites⟩ := implicitReceiver_eq hc hwithin
    exact ⟨e, he, hdenotes.tame hc hwrites, hdenotes.eval⟩
  | some o =>
    obtain ⟨e, rfl⟩ := List.length_eq_one_iff.mp hlength
    exact ⟨e, rfl, hes e List.mem_cons_self, fun t => rfl⟩

/-- A variable is a place. -/
lemma placeOf_localVar (hc : Grounded P c) {id : VariableId} {v : Variable}
    (hv : c.scope.get? id = some v) (hA : A id) :
    ∃ place, placeOf c (.localVar i id) [] = pure place ∧
      PlaceFor P c A n (.localVar i id) [] place := by
  cases href : v.byReference with
  | false =>
    refine ⟨.binding (.ident v.name), by simp [placeOf, readVariable, hv, href], ?_⟩
    refine ⟨.plain hA ⟨v, hv, href, rfl⟩, (fun h => by cases h), fun _ => rfl, fun {s t} _ => ?_⟩
    simpa [Source.Expr.slotOf, Source.variableSlot, hv, href, Place.locate] using
      Slot.Same.var ⟨v, hv, rfl⟩
  | true =>
    refine ⟨.binding (.member (.ident v.name) c.options.referenceField),
      by simp [placeOf, readVariable, hv, href], ?_⟩
    refine ⟨.contained hv href, (fun h => by cases h), fun _ => rfl, fun {s t} ht => ?_⟩
    have hx : c.Names id v.name := ⟨v, hv, rfl⟩
    simpa [Source.Expr.slotOf, Source.variableSlot, hv, href, Place.locate, hc.lookup_names hx,
      ht hv href, hc.containerField] using Slot.Same.member _ _

/-- A field is a place. -/
lemma placeOf_field (hc : Grounded P c) {id : MemberId} (hfield : c.IsField id)
    (hwithin : Source.receiverWithin c other id object) (hes : ∀ e ∈ es, Tame c A n e)
    (hlength : es.length = ((object.map (Source.Argument.mk .value)).toList).length) :
    ∃ place, placeOf c (.field i object id) es = pure place ∧
      PlaceFor P c A n (.field i object id) es place := by
  obtain ⟨e, he, htame, heval⟩ := placeReceiver_eq hc hwithin hes hlength
  obtain ⟨name, hname, -, hslot⟩ := fieldName_eq (P := P) hfield
  refine ⟨.direct (.member e name), by simp [placeOf, he, hname], ?_⟩
  refine ⟨.member name htame, (fun h => by cases h), fun t => ?_, fun {s t} _ => ?_⟩
  · simp only [Place.parts, Script.evalAll, heval]
  · simpa only [Source.Expr.slotOf, hslot, Place.locate, Place.parts, Script.evalAll, heval,
      List.headD_cons] using Slot.Same.member _ _

/-- A property is a place. -/
lemma placeOf_property (hc : Grounded P c) {id : MemberId} (hform : c.IsField id ∨ c.IsAccessor id)
    (hwithin : Source.receiverWithin c other id object) (hes : ∀ e ∈ es, Tame c A n e)
    (hlength : es.length = ((object.map (Source.Argument.mk .value)).toList).length) :
    ∃ place, placeOf c (.property i object id) es = pure place ∧
      PlaceFor P c A n (.property i object id) es place := by
  obtain ⟨e, he, htame, heval⟩ := placeReceiver_eq hc hwithin hes hlength
  rcases hform with hfield | ⟨getter, setter, hform⟩
  · obtain ⟨name, -, hplace, hslot⟩ := fieldName_eq (P := P) hfield
    refine ⟨.direct (.member e name), by simp [placeOf, he, hplace], ?_⟩
    refine ⟨.member name htame, (fun h => by cases h), fun t => ?_, fun {s t} _ => ?_⟩
    · simp only [Place.parts, Script.evalAll, heval]
    · simpa only [Source.Expr.slotOf, hslot, Place.locate, Place.parts, Script.evalAll, heval,
        List.headD_cons] using Slot.Same.member _ _
  · refine ⟨.accessor e id [], by simp [placeOf, he, propertyPlace, getForm_eq hform], ?_⟩
    refine ⟨.accessor hform (by simpa using htame), fun _ => Or.inl ⟨e, rfl⟩, fun t => ?_,
      fun {s t} _ => ?_⟩
    · simp only [Place.parts, Script.evalAll, heval]
    · simpa only [Source.Expr.slotOf, Source.memberSlot, Place.locate, hform, Place.parts,
        Script.evalAll, heval, List.headD_cons, List.tail_cons] using Slot.Same.accessor _ _ _ _

/-- An indexer is a place. -/
lemma placeOf_indexer {object : Source.Expr} {id : MemberId}
    (hindexer : c.IsIndexer id arguments.length) (hes : ∀ e ∈ es, Tame c A n e)
    (hlength : es.length = arguments.length + 1) :
    ∃ place, placeOf c (.indexer i object id arguments) es = pure place ∧
      PlaceFor P c A n (.indexer i object id arguments) es place := by
  obtain ⟨e, keys, rfl⟩ := List.exists_cons_of_length_eq_add_one hlength
  rcases hindexer with ⟨getter, setter, hform⟩ | ⟨hform, hone⟩
  · refine ⟨.accessor e id keys, by simp [placeOf, propertyPlace, getForm_eq hform], ?_⟩
    refine ⟨.accessor hform hes, fun _ => Or.inr ⟨⟨getter, setter, hform⟩, rfl⟩, fun _ => rfl,
      fun {s t} _ => ?_⟩
    simpa only [Source.Expr.slotOf, Source.memberSlot, Place.locate, hform, Place.parts] using
      Slot.Same.accessor _ _ _ _
  · obtain ⟨key, rfl⟩ : ∃ key, keys = [key] :=
      List.length_eq_one_iff.mp (by simpa [hone] using hlength)
    refine ⟨.direct (.index e key), by simp [placeOf, propertyPlace, getForm_eq hform], ?_⟩
    refine ⟨.index (hes e (by simp)) (hes key (by simp)), (fun h => by cases h), fun _ => rfl,
      fun {s t} _ => ?_⟩
    simpa only [Source.Expr.slotOf, Source.memberSlot, Place.locate, hform, Place.parts] using
      Slot.Same.element _ _

/-- An assignable target is a place. -/
lemma placeOf_eq (hc : Grounded P c) (htarget : target.isTarget = true)
    (hwithin : target.Within c other true) (hes : ∀ e ∈ es, Tame c A n e)
    (hlength : es.length = target.operands.length)
    (hA : ∀ id, target.isVariable id = true → A id) :
    ∃ place, placeOf c target es = pure place ∧ PlaceFor P c A n target es place := by
  cases target with
  | localVar i id =>
    obtain ⟨v, hv⟩ := hwithin
    obtain rfl : es = [] := List.length_eq_zero_iff.mp hlength
    exact placeOf_localVar hc hv (hA id (by simp [Source.Expr.isVariable]))
  | field i object id => exact placeOf_field hc hwithin.1 hwithin.2 hes hlength
  | property i object id => exact placeOf_property hc hwithin.1 hwithin.2 hes hlength
  | indexer i object id arguments => exact placeOf_indexer hwithin.1 hes hlength
  | element i array index =>
    obtain ⟨e, k, rfl⟩ := List.length_eq_two.mp hlength
    refine ⟨.direct (.index e k), rfl, ?_⟩
    exact ⟨.index (hes e (by simp)) (hes k (by simp)), (fun h => by cases h), fun _ => rfl,
      fun {s t} _ => Slot.Same.element _ _⟩
  | _ => cases htarget

/-! ## Operations behind operands -/

/-- An operation that runs behind statements does what the source does if it does so from where the
statements end. -/
lemma Performs.lowers (hc : Grounded P c) {important : Bool} {before : List Script.Stmt}
    {L : Lowered} {f : Memory String V H → V × Memory String V H}
    (h : Performs P c A important n₁ n' L f) (hn : n ≤ n₁)
    (hrun : ∀ {g s} {t : Memory String V H}, Matches c g s t →
      ∃ t₁, Script.Completes P before t t₁ ∧ Frame c A n n₁ t t₁ ∧
        Matches c g (source s).2 (f t₁).2 ∧ (important = true → (f t₁).1 = (source s).1)) :
    Lowers P c A important n n' { before := before ++ L.before, value := L.value } source where
  le := Nat.le_trans hn h.le
  tame := h.tame
  run := by
    intro g s t hm
    obtain ⟨t₁, hrun₁, hframe₁, hm₁, hv₁⟩ := hrun hm
    obtain ⟨t₂, hrun₂, hframe₂, hapart, hv₂⟩ := h.run t₁
    refine ⟨t₂, hrun₁.append hrun₂, ?_, hm₁.apart hc hapart, fun himp => ?_⟩
    · exact (hframe₁.mono (Nat.le_refl n) h.le).trans (hframe₂.mono hn (Nat.le_refl n'))
    · exact (hv₂ himp).trans (hv₁ himp)

/-- The containers of matching memories are still the same behind statements. -/
lemma Matches.containers (hc : Grounded P c) {g : String → V} {s : Memory VariableId V H}
    {t t₁ : Memory String V H} (hm : Matches c g s t) (hframe : Frame c A n n' t t₁)
    {id : VariableId} {v : Variable} (hv : c.scope.get? id = some v)
    (href : v.byReference = true) : t₁.vars v.name = s.vars id := by
  rw [hframe.container hc hv href]
  exact hm.vars ⟨v, hv, rfl⟩

/-- Operands for a list that ends with an argument end with its value. -/
lemma Gathers.values_concat {a : Source.Argument}
    (h : Gathers P c A n n' operands (arguments ++ [a])) :
    ∃ es e, operands.values = es ++ [e] ∧ List.Forall₂ (Stands c n') es arguments ∧
      Stands c n' e a := by
  have htake := List.forall₂_take_append _ _ _ h.stands
  have hdrop := List.forall₂_drop_append _ _ _ h.stands
  obtain ⟨e, rest, he, hrest, hvalues⟩ := List.forall₂_cons_right_iff.mp hdrop
  obtain rfl : rest = [] := List.forall₂_nil_right_iff.mp hrest
  refine ⟨operands.values.take arguments.length, e, ?_, htake, he⟩
  rw [← hvalues, List.take_append_drop]

/-- Every operand stands for an argument. -/
lemma exists_stands (h : List.Forall₂ (Stands c n) es arguments) {e : Script.Expr} (he : e ∈ es) :
    ∃ a ∈ arguments, Stands c n e a := by
  induction h with
  | nil => cases he
  | @cons _ a _ arguments hstands _ ih =>
    rcases List.mem_cons.mp he with rfl | he
    · exact ⟨a, List.mem_cons_self, hstands⟩
    · obtain ⟨b, hb, hstands'⟩ := ih he
      exact ⟨b, List.mem_cons_of_mem a hb, hstands'⟩

/-- An identifier that names a variable outside containers stands for the variable. -/
lemma Stands.plain (hc : Grounded P c) {a : Source.Argument} {x : String} {id : VariableId}
    (h : Stands c n (.ident x) a) (hx : c.NamesPlain id x) :
    ∃ mode e, a = .mk mode e ∧ c.IsPlain e id := by
  rcases h.ident x rfl with ⟨k, rfl⟩ | hnames
  · exact absurd rfl (hc.not_temporary k hx.names)
  · rcases a with ⟨mode, e⟩
    cases e with
    | localVar i id' =>
      obtain rfl : id' = id := hc.distinct hnames hx.names
      obtain ⟨v, hv, href, -⟩ := hx
      exact ⟨mode, _, rfl, rfl, v, hv, href⟩
    | _ => exact hnames.elim

/-- Nothing is read late if no variable among the arguments is assigned by one behind it. -/
lemma Steady.undelayed (hc : Grounded P c) (hsteady : Steady c arguments)
    (h : List.Forall₂ (Stands c n) es arguments) (value : Script.Expr) : Undelayed es value := by
  refine .inr ?_
  induction h with
  | nil => exact .nil
  | @cons e a es arguments he hes ih =>
    obtain ⟨hfirst, hrest⟩ := List.pairwise_cons.mp hsteady
    refine List.pairwise_cons.mpr ⟨fun e' he' x hx _ => ?_, ih hrest⟩
    obtain ⟨a', ha', hstands⟩ := exists_stands hes he'
    by_contra hw
    obtain ⟨id, hid, hplain⟩ := hstands.tame.writes x (by simpa using hw)
    rw [hx] at he
    obtain ⟨mode, source, ha, hsource⟩ := he.plain hc hplain
    rw [hfirst a' ha' mode source id ha hsource] at hid
    cases hid

/-- Nothing is read late if no variable among the arguments ahead of the last one is assigned by
one behind it. -/
lemma Gathers.undelayed (hc : Grounded P c) {a : Source.Argument}
    (h : Gathers P c A n n' operands (arguments ++ [a])) (hsteady : Steady c arguments) :
    Undelayed operands.values.dropLast operands.last := by
  obtain ⟨es, e, hvalues, hstands, -⟩ := h.values_concat
  rw [hvalues, List.dropLast_concat]
  exact hsteady.undelayed hc hstands _

/-- Reading identifiers late makes no difference to the place of a target, which has
sub-expressions that could be late only if it is an indexer behind accessors. -/
lemma PlaceFor.storing_eq {place : Place} {value : Script.Expr}
    (h : PlaceFor P c A n target es place) {important delayed : Bool}
    (hdelayed : delayed = true → value.isPure = false ∧ important = true ∧
      ∃ object id arguments, place = .accessor object id arguments)
    (hseq : important = true → c.IsAccessorIndexer target → Undelayed es value)
    (t : Memory String V H) :
    place.storing P c value delayed t = place.storing P c value false t := by
  cases delayed with
  | false => rfl
  | true =>
    obtain ⟨hpure, himportant, object, id, arguments, hplace⟩ := hdelayed rfl
    have hundelayed : Undelayed place.parts value := by
      rcases h.accessor hplace with ⟨e, he⟩ | ⟨hindexer, hparts⟩
      · rw [he]
        exact .inr (List.pairwise_singleton _ _)
      · rw [hparts]
        exact hseq himportant hindexer
    exact hundelayed.storing_eq (fun _ => hpure) t

/-- A plain assignment evaluates its target, evaluates its value and writes it. -/
lemma Gathers.store (hc : Grounded P c) {operands : Operands} {value : Source.Expr}
    {important : Bool}
    (h : Gathers P c A n n' operands (target.operands ++ [.mk .value value]))
    (htarget : target.isTarget = true) (hwithin : target.Within c other true)
    (hA : ∀ id, target.isVariable id = true → A id)
    (hseq : important = true → c.IsAccessorIndexer target →
      Undelayed operands.values.dropLast operands.last) :
    Yields
      (do
        let place ← placeOf c target operands.values.dropLast
        let stored ← place.store c operands.last important
        return { stored with before := operands.before ++ stored.before }) n'
      fun L n'' => Lowers P c A important n n'' L (fun s =>
          let l := target.slot P c s
          let v := value.eval P c l.2
          (v.1, l.1.write P v.1 v.2)) ∧
        ∀ x, L.value = .ident x → ∃ k, x = c.temporaryName k := by
  obtain ⟨es, e, hvalues, hstands, -⟩ := h.values_concat
  have htame : ∀ e' ∈ es, Tame c A n' e' := fun e' he' =>
    h.tame e' (by rw [hvalues]; exact List.mem_append_left _ he')
  obtain ⟨place, hplace, hfor⟩ :=
    placeOf_eq hc htarget hwithin htame hstands.length_eq hA
  have hlast : operands.last = e := by simp [Operands.last, hvalues]
  have hinit : operands.values.dropLast = es := by simp [hvalues]
  simp only [hinit, hlast] at hseq
  simp only [hinit, hplace, hlast, pure_bind]
  refine (yields_store hc hfor.assignable (h.tame e (by simp [hvalues])) important
    (Nat.le_refl n')).bind fun stored n'' hstored => ?_
  obtain ⟨delayed, hdelayed, hperforms⟩ := hstored
  rw [funext (hfor.storing_eq hdelayed hseq)] at hperforms
  refine .pure ⟨hperforms.lowers hc h.le fun {g s t} hm => ?_, hperforms.ident⟩
  obtain ⟨t₁, hrun, hframe, hvs, hm₁⟩ := h.run hm
  have hsame := hfor.same fun hv href => hm.containers hc hframe hv href
  simp only [hvalues, Script.evalAll_append, Source.evalArguments_append, Script.evalAll,
    Source.evalArguments] at hvs hm₁
  obtain ⟨hes, he⟩ := List.append_inj' hvs rfl
  have hvalue : (e.eval P (Script.evalAll P es t₁).2).1 =
      (value.eval P c (Source.evalArguments P c target.operands s).2).1 := (List.cons.inj he).1
  rw [hes] at hsame
  refine ⟨t₁, hrun, hframe, ?_, fun _ => ?_⟩
  · simp only [Place.storing, hfor.state, Source.Expr.slot_eq, Bool.false_eq_true, if_false,
      hvalue]
    exact Matches.write hm₁ hc hsame _
  · simp only [Place.storing, hfor.state, Source.Expr.slot_eq, hvalue]

/-! ## Assignments through an operator -/

/-- What an assignment through an operator does, given the lowered value `M`: it evaluates the
sub-expressions of the target, runs the statements of the value, and only then reads the target,
evaluates what is left of the value, and writes once. -/
structure ModifiesLate (P : Primitives V H) (c : Context) (A : VariableId → Prop)
    (important : Bool) (n n' : ℕ) (target : Source.Expr) (combine : V → V → Action V H)
    (M L : Lowered) : Prop where
  le : n ≤ n'
  tame : Tame c A n' L.value
  ident : ∀ x, L.value = .ident x → ∃ k, x = c.temporaryName k
  run : ∀ {g : String → V} {s : Memory VariableId V H} {t : Memory String V H}, Matches c g s t →
    ∃ t₁ t₂ t' l, Matches c g (target.slot P c s).2 t₁ ∧
      Slot.Same c.Names (target.slot P c s).1 l ∧ Script.Completes P M.before t₁ t₂ ∧
      Script.Completes P L.before t t' ∧ Frame c A n n' t t' ∧
      Apart c n n' (l.modify P combine (M.value.eval P) t₂).2 (L.value.eval P t').2 ∧
      (important = true →
        (L.value.eval P t').1 = (l.modify P combine (M.value.eval P) t₂).1)

/-- The lowering of an assignment through an operator, once its operands are there. -/
lemma yields_compound (hc : Grounded P c) {op : Source.BinaryOp} (value : Source.Expr)
    {e : Script.Expr} (before : List Script.Stmt) (important : Bool)
    (hop : op.isShortCircuit = false) (hes : ∀ e' ∈ es, Tame c A n₁ e') (he : Tame c A n₁ e)
    (htarget : target.isTarget = true) (hwithin : target.Within c other true)
    (hlength : es.length = target.operands.length)
    (hA : ∀ id, target.isVariable id = true → A id) :
    ∃ place, PlaceFor P c A n₁ target es place ∧
      Yields
        (do
          let place ← placeOf c target (es ++ [e]).dropLast
          let stored ← compoundAssign c op (isIntegerDivision op target value) place
            (Operands.mk before (es ++ [e])).last important
          return { stored with before := before ++ stored.before }) n₁
        fun L n' => ∃ stored, L = { stored with before := before ++ stored.before } ∧
          Performs P c A important n₁ n' stored
            (place.modifying P c (op.apply P target.type value.type) e) := by
  obtain ⟨place, hplace, hfor⟩ := placeOf_eq hc htarget hwithin hes hlength hA
  have hlast : (Operands.mk before (es ++ [e])).last = e := by simp [Operands.last]
  refine ⟨place, hfor, ?_⟩
  simp only [List.dropLast_concat, hplace, hlast, pure_bind]
  refine (yields_compoundAssign hc hfor.assignable he hop target value important
    (Nat.le_refl n₁)).bind fun stored n' hstored => ?_
  exact .pure ⟨stored, rfl, hstored⟩

/-- An assignment through an operator evaluates the sub-expressions of its target first, and it
reads the target behind the statements of its value. -/
lemma Gathers.modifies_late (hc : Grounded P c) {op : Source.BinaryOp} {value : Source.Expr}
    {M : Lowered} (important : Bool) (h : Gathers P c A n n₁ operands target.operands)
    (hM : Lowers P c A true n₁ n₂ M (value.eval P c)) (hop : op.isShortCircuit = false)
    (htarget : target.isTarget = true) (hwithin : target.Within c other true)
    (hA : ∀ id, target.isVariable id = true → A id) :
    Yields
      (do
        let operands ← operands.add c M
        let place ← placeOf c target operands.values.dropLast
        let stored ← compoundAssign c op (isIntegerDivision op target value) place
          operands.last important
        return { stored with before := operands.before ++ stored.before }) n₂
      fun L n' =>
        ModifiesLate P c A important n n' target (op.apply P target.type value.type) M L := by
  have hn := h.le
  have hn₁ := hM.le
  refine (yields_add hc h.tame M hM.le).bind fun operands' n₃ hadd => ?_
  rcases hadd with ⟨hbefore, rfl, rfl⟩ | ⟨-, captured, hcap, rfl⟩
  · -- the value needs no statements: the operands are evaluated with the place
    obtain ⟨place, hfor, hyields⟩ := yields_compound hc value operands.before important hop
      (fun e he => (h.tame e he).mono hM.le) hM.tame htarget hwithin h.stands.length_eq hA
    refine hyields.mono fun L n' hL => ?_
    obtain ⟨stored, rfl, hperforms⟩ := hL
    have hn' := hperforms.le
    refine ⟨by omega, hperforms.tame, hperforms.ident, fun {g s t} hm => ?_⟩
    obtain ⟨t₁, hrun, hframe, hvs, hm₁⟩ := h.run hm
    have hsame := hfor.same fun hv href => hm.containers hc hframe hv href
    obtain ⟨t', hrun', hframe', hapart, hv⟩ := hperforms.run t₁
    simp only [Place.modifying, hfor.state] at hapart hv
    refine ⟨(Script.evalAll P operands.values t₁).2, _, t', _, ?_, ?_, ?_, hrun.append hrun', ?_,
      hapart.mono (by omega) (by omega), hv⟩
    · simpa only [Source.Expr.slot_eq] using hm₁
    · simpa only [Source.Expr.slot_eq, hvs] using hsame
    · rw [hbefore]
      exact Script.completes_nil _
    · exact (hframe.mono (by omega) (by omega)).trans (hframe'.mono (by omega) (by omega))
  · -- the operands are captured ahead of the statements of the value
    have hn₃ := hcap.le
    obtain ⟨place, hfor, hyields⟩ := yields_compound hc value
      (operands.before ++ captured.before ++ M.before) important hop
      (fun e he => (hcap.all_fixed e he).tame fun k hk => by omega) (hM.tame.mono hn₃) htarget
      hwithin (hcap.length.trans h.stands.length_eq) hA
    refine hyields.mono fun L n' hL => ?_
    obtain ⟨stored, rfl, hperforms⟩ := hL
    have hn' := hperforms.le
    refine ⟨by omega, hperforms.tame, hperforms.ident, fun {g s t} hm => ?_⟩
    obtain ⟨t₁, hrun₁, hframe₁, hvs, hm₁⟩ := h.run hm
    obtain ⟨t₂, hrun₂, hapart₂, hvalues⟩ := hcap.run_all t₁
    have hm₂ := hm₁.apart hc hapart₂
    obtain ⟨t₃, hrun₃, hframe₃, -, -⟩ := hM.run hm₂
    have hkept : Script.evalAll P captured.values t₃ =
        ((Script.evalAll P operands.values t₁).1, t₃) :=
      hvalues t₃ fun k hk => hframe₃.temporary hc (by omega)
    have hframe : Frame c A n n₃ t t₃ := by
      have h₁ := hframe₁.mono (Nat.le_refl n) (by omega : n₁ ≤ n₃)
      have h₂ := (Tame.evalAll_frame (P := P) h.tame n t₁).mono (Nat.le_refl n)
        (by omega : n ≤ n₃)
      have h₃ := (hapart₂.frame (A := A)).mono (by omega : n ≤ n₂) (Nat.le_refl n₃)
      exact ((h₁.trans h₂).trans h₃).trans (hframe₃.mono hn hn₃)
    have hsame := hfor.same fun hv href => hm.containers hc hframe hv href
    obtain ⟨t', hrun', hframe', hapart, hv⟩ := hperforms.run t₃
    simp only [Place.modifying, hfor.state, hkept] at hapart hv hsame
    refine ⟨t₂, t₃, t', _, ?_, ?_, hrun₃, ((hrun₁.append hrun₂).append hrun₃).append hrun', ?_,
      hapart.mono (by omega) (Nat.le_refl n'), hv⟩
    · simpa only [Source.Expr.slot_eq] using hm₂
    · simpa only [Source.Expr.slot_eq, hvs] using hsame
    · exact (hframe.mono (Nat.le_refl n) hn').trans (hframe'.mono (by omega) (Nat.le_refl n'))

/-- Reading the target behind the statements of the value comes to the same as reading it ahead of
them, whatever the values of its sub-expressions. -/
def Undisturbed (P : Primitives V H) (c : Context) (target : Source.Expr) (M : Lowered) : Prop :=
  ∀ ⦃g : String → V⦄ ⦃s : Memory VariableId V H⦄ ⦃t t' : Memory String V H⦄ ⦃vs : List V⦄
    ⦃l : Slot String V⦄, Matches c g s t → Slot.Same c.Names (target.slotOf P c vs s) l →
    Script.Completes P M.before t t' →
      (l.read P t').1 = (l.read P t).1 ∧
        Script.Completes P M.before (l.read P t).2 (l.read P t').2

/-- No statements get in the way of reading the target. -/
lemma undisturbed_nil {M : Lowered} (hbefore : M.before = []) : Undisturbed P c target M := by
  intro g s t t' vs l _ _ hrun
  rw [hbefore] at hrun ⊢
  obtain rfl := (Script.completes_nil t).unique hrun
  exact ⟨rfl, Script.completes_nil _⟩

/-- Statements that do not assign a variable do not get in the way of reading it. -/
lemma undisturbed_variable (hc : Grounded P c) {B : VariableId → Prop} {id : VariableId}
    {M : Lowered} (hM : Lowers P c B true n₁ n₂ M source) (hplain : c.IsPlain target id)
    (hB : ¬ B id) : Undisturbed P c target M := by
  intro g s t t' vs l hm hl hrun
  cases target with
  | localVar i id' =>
    obtain ⟨rfl, v, hv, href⟩ := hplain
    have hslot : (Source.Expr.localVar i id').slotOf P c vs s = .var id' := by
      simp [Source.Expr.slotOf, Source.variableSlot, hv, href]
    rw [hslot] at hl
    cases hl with
    | @var _ x hx =>
      obtain ⟨t₁, hrun₁, hframe, -, -⟩ := hM.run hm
      obtain rfl := hrun.unique hrun₁
      refine ⟨?_, hrun⟩
      refine hframe x (fun id hid hid' => hB ?_) fun k _ _ => hc.not_temporary k hx
      rwa [hc.distinct hx hid'.names]
  | _ => exact hplain.elim

/-- In source order if the statements of the value do not get in the way of reading the target. -/
lemma ModifiesLate.lowers (hc : Grounded P c) {important : Bool} {combine : V → V → Action V H}
    {B : VariableId → Prop} {L M : Lowered}
    (h : ModifiesLate P c A important n n' target combine M L)
    (hM : Lowers P c B true n₁ n₂ M source) (hreads : Undisturbed P c target M) :
    Lowers P c A important n n' L fun s =>
      (target.slot P c s).1.modify P combine source (target.slot P c s).2 where
  le := h.le
  tame := h.tame
  run := by
    intro g s t hm
    obtain ⟨t₁, t₂, t', l, hm₁, hl, hrun, hrun', hframe, hapart, hv⟩ := h.run hm
    have hslot : target.slotOf P c (Source.evalArguments P c target.operands s).1
        (target.slot P c s).2 = (target.slot P c s).1 := by
      rw [Source.Expr.slot_eq, Source.Expr.slotOf_operands]
    obtain ⟨hlate, hcommutes⟩ := hreads hm₁ (hslot ▸ hl) hrun
    obtain ⟨hold, hm₂⟩ := hm₁.read P hl
    obtain ⟨t₃, hrun₃, -, hm₃, hv₃⟩ := hM.run hm₂
    obtain rfl := hcommutes.unique hrun₃
    obtain ⟨hnew, hm₄⟩ := hm₃.act
      (combine ((target.slot P c s).1.read P (target.slot P c s).2).1
        (source ((target.slot P c s).1.read P (target.slot P c s).2).2).1)
    simp only [Slot.modify, hlate, hold, hv₃ rfl, hnew] at hapart hv ⊢
    exact ⟨t', hrun', hframe, (hm₄.write hc hl _).apart hc hapart, hv⟩

/-! ## Increments and decrements -/

/-- An increment or decrement evaluates its target, reads it once and writes it once. -/
lemma Gathers.increment (hc : Grounded P c) {operands : Operands} {kind : Source.IncrementKind}
    (important : Bool) (h : Gathers P c A n n₁ operands target.operands)
    (htarget : target.isTarget = true) (hwithin : target.Within c other true)
    (hA : ∀ id, target.isVariable id = true → A id) :
    Yields
      (do
        let place ← placeOf c target operands.values
        let stored ← incrementPlace c kind place important
        return { stored with before := operands.before ++ stored.before }) n₁
      fun L n' => Lowers P c A important n n' L (fun s =>
          let l := target.slot P c s
          let r := l.1.update P kind.change l.2
          (if kind.isPost then r.1.1 else r.1.2, r.2)) ∧
        ∀ x, L.value = .ident x → ∃ k, x = c.temporaryName k := by
  obtain ⟨place, hplace, hfor⟩ :=
    placeOf_eq hc htarget hwithin h.tame h.stands.length_eq hA
  simp only [hplace, pure_bind]
  refine (yields_incrementPlace hc hfor.assignable kind important (Nat.le_refl n₁)).bind
    fun stored n' hperforms => ?_
  refine .pure ⟨hperforms.lowers hc h.le fun {g s t} hm => ?_, hperforms.ident⟩
  obtain ⟨t₁, hrun, hframe, hvs, hm₁⟩ := h.run hm
  have hsame := hfor.same fun hv href => hm.containers hc hframe hv href
  rw [hvs] at hsame
  obtain ⟨hr, hm₂⟩ := hm₁.update hc hsame kind.change
  refine ⟨t₁, hrun, hframe, ?_, fun _ => ?_⟩
  · simpa only [Place.updating, hfor.state, Source.Expr.slot_eq] using hm₂
  · simp only [Place.updating, hfor.state, Source.Expr.slot_eq, hr]

end

end ScriptCompiler.Lowering
