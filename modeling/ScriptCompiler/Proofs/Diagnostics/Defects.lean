import ScriptCompiler.Proofs.Diagnostics.Marks
import ScriptCompiler.Proofs.Traversal.Calls

/-!
# Defects

What the operations of lowering report does not depend on the state: the descriptions and forms that
they ask for have certain defects, and those are reported in turn.  `Tells c K step texts` says so
of a step.  Besides, the step asks for nothing outside the program, if `K` holds.

A member that the context `Knows` is found whenever it is asked for.  `Silent` steps report nothing;
they take temporaries and look up what is there.
-/

namespace ScriptCompiler

/-- The reporter behind defects that were reported in turn. -/
def Reporter.internalErrors (r : Reporter) (texts : List String) : Reporter :=
  { r with messages := r.messages ++ texts.map fun text => r.entry .internalError [text] }

/-- No defects, no change. -/
lemma Reporter.internalErrors_nil (r : Reporter) : r.internalErrors [] = r := by
  simp [internalErrors]

/-- Defects are reported in turn. -/
lemma Reporter.internalErrors_append (r : Reporter) (xs ys : List String) :
    r.internalErrors (xs ++ ys) = (r.internalErrors xs).internalErrors ys := by
  simp [internalErrors, entry]

namespace Source

/-- The member that the expression itself refers to. -/
def Expr.memberId? : Expr → Option MemberId
  | .field _ _ id | .property _ _ id | .indexer _ _ id _ | .call _ _ id _ | .create _ id _ => some id
  | _ => none

/-- The members that the node itself refers to; an assignment refers to that of its target. -/
def Node.members : Node → List MemberId
  | .expr (.assign _ _ target _) | .expr (.increment _ _ target) => target.memberId?.toList
  | .expr e => e.memberId?.toList
  | .stmt _ => []

end Source

namespace Lowering

open Source (Node)

/-! ## What is reported -/

namespace Context

variable (c : Context)

/-- The defect of a variable without description. -/
def variableDefects (id : VariableId) : List String :=
  if (c.scope.get? id).isSome then []
  else ["No variable descriptor for local #" ++ toString id.index]

/-- The defect of an argument passed by reference that is not a variable in a container. -/
def referenceDefects : Source.Expr → List String
  | .localVar _ id =>
    match c.scope.get? id with
    | some v =>
      if v.byReference then []
      else ["Variable '" ++ v.name ++ "' is passed by reference but does not use reference semantics"]
    | none => c.variableDefects id
  | _ => ["Only local variables can be passed by reference"]

/-- The defect of a member whose form does not fit its use. -/
def memberDefects (fits : MemberForm → Bool) (id : MemberId) : List String :=
  if fits (c.formOf id) then []
  else ["Unexpected implementation " ++ (c.formOf id).shown ++ " for " ++
    (c.program.describe? (.member id)).getD default]

/-- The defects of a function without data, and of its parameters without description. -/
def lambdaDefects (id : LambdaId) (parameters : List VariableId) : List String :=
  (if (c.lambdas.get? id).isNone then
    ["No nested function data for lambda #" ++ toString id.index] else []) ++
  (parameters.filter fun p => (c.scope.get? p).isNone).map fun p =>
    "No variable descriptor for parameter #" ++ toString p.index

/-- Whatever lowering asks about the member is in the program. -/
structure Knows (id : MemberId) : Prop where
  member : (c.program.member? id).isSome = true
  form : (c.naming.form? c.program id).isSome = true
  description : (c.program.describe? (.member id)).isSome = true
  typeName : ∀ m, c.program.member? id = some m →
    (c.naming.typeName? c.program m.declaringType).isSome = true

end Context

/-- Forms that are read and written as a field. -/
def isFieldForm : MemberForm → Bool
  | .field _ | .fieldProperty _ => true
  | _ => false

/-- Forms that are read and written as a property or indexer. -/
def isPropertyForm : MemberForm → Bool
  | .property .. | .field _ | .fieldProperty _ | .nativeIndexer => true
  | _ => false

/-- Forms that are called. -/
def isMethodForm : MemberForm → Bool
  | .method _ => true
  | _ => false

/-- Forms that create an object. -/
def isConstructorForm : MemberForm → Bool
  | .constructor _ => true
  | _ => false

/-- The defects of a variable or member that is read or written. -/
def accessDefects (c : Context) : Source.Expr → List String
  | .localVar _ id => c.variableDefects id
  | .field _ _ id => c.memberDefects isFieldForm id
  | .property _ _ id | .indexer _ _ id _ => c.memberDefects isPropertyForm id
  | _ => []

/-- The defects that show behind the operands of an expression. -/
def exprDefects (c : Context) : Source.Expr → List String
  | .call _ _ id _ => c.memberDefects isMethodForm id
  | .create _ id _ => c.memberDefects isConstructorForm id
  | .assign _ _ target _ | .increment _ _ target => accessDefects c target
  | e => accessDefects c e

/-- The defect that shows before the operands of an expression. -/
def targetDefects : Source.Expr → List String
  | .assign _ _ target _ | .increment _ _ target =>
    if target.isTarget then [] else ["Assignment target is not assignable"]
  | _ => []

/-! ## Steps that report defects -/

variable {α β : Type} {c : Context} {K : Prop}

/-- The step reports the defects in turn and does nothing else with the reporter.  If `K` holds, it
asks for nothing outside the program. -/
structure Tells (c : Context) (K : Prop) (step : Lower α) (texts : List String) : Prop where
  composed : Composed c step
  reporter (s : State) : (step s).2.reporter = s.reporter.internalErrors texts
  dangling (s : State) : K → (step s).2.dangling = s.dangling

/-- The step does nothing with the reporter. -/
abbrev Silent (c : Context) (K : Prop) (step : Lower α) : Prop :=
  Tells c K step []

namespace Tells

variable {step : Lower α} {next : α → Lower β} {T : α → Prop} {xs ys : List String}

/-- Nothing is told about a value. -/
lemma pure (x : α) : Silent c K (Pure.pure x : Lower α) :=
  ⟨.pure x, fun _ => (Reporter.internalErrors_nil _).symm, fun _ _ => rfl⟩

/-- One step after another, with what is known of the first result. -/
lemma bind_of (h : Tells c K step xs) (hresult : Gives step T)
    (hnext : ∀ x, T x → Tells c K (next x) ys) : Tells c K (step >>= next) (xs ++ ys) where
  composed := h.composed.bind_of hresult fun x hx => (hnext x hx).composed
  reporter s := by
    rw [Reporter.internalErrors_append, ← h.reporter]
    exact (hnext _ (hresult s)).reporter _
  dangling s hK := ((hnext _ (hresult s)).dangling _ hK).trans (h.dangling s hK)

/-- Steps tell their defects in turn. -/
lemma bind (h : Tells c K step xs) (hnext : ∀ x, Tells c K (next x) ys) :
    Tells c K (step >>= next) (xs ++ ys) :=
  h.bind_of (T := fun _ => True) (fun _ => trivial) fun x _ => hnext x

/-- A silent step in front. -/
lemma after_of (h : Silent c K step) (hresult : Gives step T)
    (hnext : ∀ x, T x → Tells c K (next x) xs) : Tells c K (step >>= next) xs :=
  h.bind_of hresult hnext

/-- What follows a silent step tells all. -/
lemma after (h : Silent c K step) (hnext : ∀ x, Tells c K (next x) xs) :
    Tells c K (step >>= next) xs :=
  h.bind hnext

/-- A step that is followed by a silent one. -/
lemma andThen_of (h : Tells c K step xs) (hresult : Gives step T)
    (hnext : ∀ x, T x → Silent c K (next x)) : Tells c K (step >>= next) xs := by
  have hboth := h.bind_of hresult hnext
  rwa [List.append_nil] at hboth

/-- A silent step adds nothing. -/
lemma andThen (h : Tells c K step xs) (hnext : ∀ x, Silent c K (next x)) :
    Tells c K (step >>= next) xs :=
  h.andThen_of (T := fun _ => True) (fun _ => trivial) fun x _ => hnext x

end Tells

/-- The text of a defect is told. -/
lemma tells_internalError (text : String) : Tells c K (internalError text) [text] :=
  ⟨composed_internalError text, fun _ => rfl, fun _ _ => rfl⟩

/-- What is there is asked for in silence. -/
lemma silent_require [Inhabited α] {o : Option α} (h : K → o.isSome = true) :
    Silent c K (require o) := by
  cases o with
  | some a => exact .pure a
  | none =>
    exact ⟨composed_require none, fun s => (Reporter.internalErrors_nil _).symm,
      fun s hK => by cases h hK⟩

/-! ## Captured values -/

/-- Taking a temporary is silent. -/
lemma silent_newTemporary : Silent c K (newTemporary c) :=
  ⟨composed_newTemporary, fun _ => (Reporter.internalErrors_nil _).symm, fun _ _ => rfl⟩

/-- So is looking at an expression. -/
lemma silent_isStable (e : Script.Expr) : Silent c K (isStable c e) := by
  refine ⟨composed_isStable c e, fun s => ?_, fun s _ => ?_⟩
  · rw [Reporter.internalErrors_nil]
    cases e <;> rfl
  · cases e <;> rfl

/-- So is capturing a value. -/
lemma silent_spill (e : Script.Expr) : Silent c K (spill c e) := by
  refine (silent_isStable e).after fun stable => ?_
  split
  · exact .pure _
  · exact silent_newTemporary.after fun _ => .pure _

/-- So is capturing several values. -/
lemma silent_spillAll (values : List Script.Expr) : Silent c K (spillAll c values) := by
  induction values with
  | nil => exact .pure _
  | cons e rest ih => exact (silent_spill e).after fun _ => ih.after fun _ => .pure _

/-- So is capturing what a later value may change. -/
lemma silent_spillBefore (later e : Script.Expr) : Silent c K (spillBefore c later e) := by
  unfold spillBefore
  split
  · split
    · exact silent_spill _
    · exact .pure _
  · exact silent_spill _

/-- The same for several values. -/
lemma silent_spillAllBefore (later : Script.Expr) (values : List Script.Expr) :
    Silent c K (spillAllBefore c later values) := by
  induction values with
  | nil => exact .pure _
  | cons e rest ih => exact (silent_spillBefore later e).after fun _ => ih.after fun _ => .pure _

/-- Adding an operand is silent. -/
lemma silent_add (operands : Operands) (operand : Lowered) :
    Silent c K (operands.add c operand) := by
  unfold Operands.add
  split
  · exact .pure _
  · exact (silent_spillAll _).after fun _ => .pure _

/-- So are operators that skip their right operand. -/
lemma silent_shortCircuit (op : Source.BinaryOp) (left right : Lowered) :
    Silent c K (shortCircuit c op left right) := by
  unfold shortCircuit
  split
  · exact .pure _
  · exact silent_newTemporary.after fun _ => .pure _

/-- So are choices. -/
lemma silent_choose (condition whenTrue whenFalse : Lowered) :
    Silent c K (choose c condition whenTrue whenFalse) := by
  unfold choose
  split
  · exact .pure _
  · exact silent_newTemporary.after fun _ => .pure _

/-! ## Variables -/

/-- A variable without description is told. -/
lemma tells_missingVariable {id : VariableId} (h : c.scope.get? id = none) :
    Tells c K (missingVariable id) (c.variableDefects id) := by
  rw [Context.variableDefects, h]
  exact (tells_internalError _).andThen fun _ => .pure _

/-- Reading a variable tells if it lacks a description. -/
lemma tells_readVariable (id : VariableId) :
    Tells c K (readVariable c id) (c.variableDefects id) := by
  unfold readVariable
  cases h : c.scope.get? id with
  | none => exact tells_missingVariable h
  | some v =>
    rw [Context.variableDefects, h]
    exact .pure _

/-- Passing a reference tells if it is none. -/
lemma tells_passReference (e : Source.Expr) :
    Tells c K (passReference c e) (c.referenceDefects e) := by
  cases e with
  | localVar i id =>
    simp only [passReference, Context.referenceDefects]
    cases h : c.scope.get? id with
    | none => exact tells_missingVariable h
    | some v =>
      cases hv : v.byReference with
      | true =>
        simp only [hv, if_true]
        exact .pure _
      | false =>
        simp only [hv, Bool.false_eq_true, if_false]
        exact (tells_internalError _).andThen fun _ => .pure _
  | _ => exact (tells_internalError _).andThen fun _ => .pure _

/-- Every parameter without description is told. -/
lemma tells_lambdaParameters (parameters : List VariableId) :
    Tells c K (lambdaParameters c parameters)
      ((parameters.filter fun p => (c.scope.get? p).isNone).map fun p =>
        "No variable descriptor for parameter #" ++ toString p.index) := by
  induction parameters with
  | nil => exact .pure _
  | cons id rest ih =>
    unfold lambdaParameters
    cases h : c.scope.get? id with
    | some v =>
      rw [List.filter_cons_of_neg (by simp [h])]
      exact ih.andThen fun _ => .pure _
    | none =>
      rw [List.filter_cons_of_pos (by simp [h])]
      exact (tells_internalError _).bind fun _ => ih.andThen fun _ => .pure _

/-- A function without entry is told, too. -/
lemma tells_lambdaHead (id : LambdaId) (parameters : List VariableId) :
    Tells c K (lambdaHead c id parameters) (c.lambdaDefects id parameters) := by
  unfold lambdaHead Context.lambdaDefects
  cases c.lambdas.get? id with
  | some entry => exact tells_lambdaParameters parameters
  | none => exact (tells_internalError _).bind fun _ => tells_lambdaParameters parameters

/-! ## Members -/

/-- Members of a program whose definitions refer to earlier ones are known. -/
lemma Context.knows_of_isSome (hp : c.program.Ordered) {id : MemberId}
    (h : (c.program.member? id).isSome = true) : c.Knows id where
  member := h
  form := Program.isSome_form? c.naming h
  description := hp.isSome_describe?_member h
  typeName := fun _ hm => hp.isSome_typeName? c.naming (hp.declared hm)

section Members

variable {id : MemberId} (hid : K → c.Knows id)
include hid

/-- A member that is known is found in silence. -/
lemma silent_getMember (f : Member → α) : Silent c K (do return f (← getMember c id)) :=
  (silent_require fun hK => (hid hK).member).after fun _ => .pure _

/-- The type of a member that was asked for can be named. -/
lemma Tells.after_getMember {next : Member → Lower α} {texts : List String}
    (hnext : ∀ m, Silent c K (typeReference c m.declaringType) → Tells c K (next m) texts) :
    Tells c K (getMember c id >>= next) texts := by
  refine .after_of (silent_require fun hK => (hid hK).member) (fun s => ?_) hnext
  refine (silent_require fun hK => ?_).after fun _ => .pure _
  obtain ⟨m, hm⟩ := Option.isSome_iff_exists.mp (hid hK).member
  rw [getMember, gives_require _ s, hm]
  exact (hid hK).typeName m hm

/-- So is the receiver of a place. -/
lemma silent_placeReceiver (target : Option Source.Expr) (operands : List Script.Expr) :
    Silent c K (placeReceiver c id target operands) := by
  unfold placeReceiver
  split
  · exact .pure _
  · refine .after_getMember hid fun m htype => ?_
    split
    · exact htype
    · exact .pure _

/-- The form of a member is looked up.  Forms that fit are used without a word, and others are
reported first. -/
lemma tells_of_form {fits : MemberForm → Bool} {use : MemberForm → Lower α} {rest : Lower α}
    (hrest : Silent c K rest)
    (huse : ∀ form, fits form = true ∧ Silent c K (use form) ∨
      fits form = false ∧ use form = unexpectedForm c id form >>= fun _ => rest) :
    Tells c K (getForm c id >>= use) (c.memberDefects fits id) := by
  refine .after_of (T := (· = c.formOf id)) (silent_require fun hK => (hid hK).form)
    (gives_require _) ?_
  rintro form rfl
  unfold Context.memberDefects
  rcases huse (c.formOf id) with ⟨hfits, hsilent⟩ | ⟨hfits, hreported⟩
  · rw [hfits]
    exact hsilent
  · rw [hfits, hreported]
    refine .andThen (.after_of (silent_require fun hK => (hid hK).description)
      (gives_require _) ?_) fun _ => hrest
    rintro described rfl
    exact tells_internalError _

/-- A member that is no field is told. -/
lemma tells_fieldName : Tells c K (fieldName c id) (c.memberDefects isFieldForm id) := by
  refine tells_of_form hid (silent_getMember hid Member.name) fun form => ?_
  cases form <;> first | exact .inl ⟨rfl, .pure _⟩ | exact .inr ⟨rfl, rfl⟩

/-- A member that is no method is told. -/
lemma tells_methodName : Tells c K (methodName c id) (c.memberDefects isMethodForm id) := by
  refine tells_of_form hid (silent_getMember hid Member.name) fun form => ?_
  cases form <;> first | exact .inl ⟨rfl, .pure _⟩ | exact .inr ⟨rfl, rfl⟩

/-- A member without setter is told. -/
lemma tells_setterName :
    Tells c K (Place.setterName c id) (c.memberDefects hasAccessors id) := by
  refine tells_of_form hid (silent_getMember hid Member.name) fun form => ?_
  cases form <;> first | exact .inl ⟨rfl, .pure _⟩ | exact .inr ⟨rfl, rfl⟩

/-- A member that is no property is told. -/
lemma tells_getProperty (object : Script.Expr) (arguments : List Script.Expr) :
    Tells c K (getProperty c object id arguments) (c.memberDefects isPropertyForm id) := by
  refine tells_of_form hid (.pure Script.Expr.null) fun form => ?_
  cases form <;> first | exact .inl ⟨rfl, .pure _⟩ | exact .inr ⟨rfl, rfl⟩

/-- So it is where the property is a target. -/
lemma tells_propertyPlace (object : Script.Expr) (arguments : List Script.Expr) :
    Tells c K (propertyPlace c object id arguments) (c.memberDefects isPropertyForm id) := by
  refine tells_of_form hid (silent_getMember hid fun m => .direct (.member object m.name))
    fun form => ?_
  cases form <;> first | exact .inl ⟨rfl, .pure _⟩ | exact .inr ⟨rfl, rfl⟩

/-- A member that is no constructor is told. -/
lemma tells_createObject (arguments : List Script.Expr) :
    Tells c K (createObject c id arguments) (c.memberDefects isConstructorForm id) := by
  refine .after_getMember hid fun m htype => htype.after fun type => ?_
  refine tells_of_form hid (.pure (.new type arguments)) fun form => ?_
  cases form with
  | constructor name => cases name <;> exact .inl ⟨rfl, .pure _⟩
  | _ => exact .inr ⟨rfl, rfl⟩

end Members

/-! ## Places -/

/-- A place behind accessors belongs to a member that has them. -/
def Place.Valid (c : Context) : Place → Prop
  | .accessor _ id _ => c.IsAccessor id
  | .binding _ | .direct _ => True

/-- The place of a property is valid. -/
lemma valid_propertyPlace (object : Script.Expr) (id : MemberId)
    (arguments : List Script.Expr) :
    Gives (propertyPlace c object id arguments) (·.Valid c) := by
  intro s
  unfold propertyPlace getForm
  cases hform : c.naming.form? c.program id with
  | none => trivial
  | some form =>
    cases form with
    | property getter setter => exact ⟨getter, setter, hform⟩
    | _ => trivial

/-- So is that of every target. -/
lemma valid_placeOf (target : Source.Expr) (operands : List Script.Expr) :
    Gives (placeOf c target operands) (·.Valid c) := by
  intro s
  cases target with
  | property | indexer => exact valid_propertyPlace _ _ _ _
  | _ => trivial

/-- A place stays valid when its parts are captured. -/
lemma valid_stabilize {place : Place} (h : place.Valid c) :
    Gives (place.stabilize c) (·.2.Valid c) := by
  intro s
  cases place with
  | binding location => trivial
  | direct location => cases location <;> trivial
  | accessor object id arguments => exact h

/-- Capturing the parts of a place is silent. -/
lemma silent_stabilize (place : Place) : Silent c K (place.stabilize c) := by
  unfold Place.stabilize
  split
  · exact (silent_spill _).after fun _ => .pure _
  · exact (silent_spill _).after fun _ => (silent_spill _).after fun _ => .pure _
  · exact (silent_spill _).after fun _ => (silent_spillAll _).after fun _ => .pure _
  · exact .pure _

/-- A member with accessors is read and written without a word. -/
lemma getForm_of_isAccessor {id : MemberId} (h : c.IsAccessor id) :
    ∃ getter setter, getForm c id = pure (.property getter setter) := by
  obtain ⟨getter, setter, hform⟩ := h
  refine ⟨getter, setter, ?_⟩
  rw [getForm, hform]
  rfl

section Valid

variable {place : Place} (hplace : place.Valid c)
include hplace

/-- A valid place is read in silence. -/
lemma silent_load : Silent c K (place.load c) := by
  cases place with
  | binding location | direct location => exact .pure _
  | accessor object id arguments =>
    obtain ⟨getter, setter, hform⟩ := getForm_of_isAccessor hplace
    simp only [Place.load, getProperty, hform, pure_bind]
    exact .pure _

/-- It is written in silence. -/
lemma silent_store (value : Script.Expr) (important : Bool) :
    Silent c K (place.store c value important) := by
  cases place with
  | binding location | direct location => exact .pure _
  | accessor object id arguments =>
    obtain ⟨getter, setter, hform⟩ := getForm_of_isAccessor hplace
    simp only [Place.store, Place.setterName, hform, pure_bind]
    split
    · exact .pure _
    · refine (silent_isStable value).after fun stable => ?_
      split
      · exact .pure _
      · exact (silent_spillBefore _ _).after fun _ => (silent_spillAllBefore _ _).after fun _ =>
          (silent_spill _).after fun _ => .pure _

/-- So are compound assignments to it. -/
lemma silent_compoundAssign (op : Source.BinaryOp) (integerDivision : Bool) (value : Script.Expr)
    (important : Bool) :
    Silent c K (compoundAssign c op integerDivision place value important) := by
  unfold compoundAssign
  split
  · exact .pure _
  · exact .pure _
  · refine (silent_stabilize place).after_of (valid_stabilize hplace) fun captured hvalid => ?_
    exact (silent_load hvalid).after fun _ => (silent_store hvalid _ _).after fun _ => .pure _

/-- So are all assignments to it. -/
lemma silent_assignPlace (op : Option Source.BinaryOp) (target source : Source.Expr)
    (value : Script.Expr) (important : Bool) :
    Silent c K (assignPlace c op target source place value important) := by
  unfold assignPlace
  split
  · exact silent_store hplace _ _
  · exact silent_compoundAssign hplace _ _ _ _

/-- So are increments of it. -/
lemma silent_incrementPlace (kind : Source.IncrementKind) (important : Bool) :
    Silent c K (incrementPlace c kind place important) := by
  unfold incrementPlace
  split
  · exact .pure _
  · exact .pure _
  · refine (silent_stabilize _).after_of (valid_stabilize hplace) fun captured hvalid => ?_
    refine (silent_load hvalid).after fun current => ?_
    split
    · exact silent_newTemporary.after fun _ => (silent_store hvalid _ _).after fun _ => .pure _
    · exact (silent_store hvalid _ _).after fun _ => .pure _

end Valid

/-- A target tells what is wrong with its member. -/
lemma tells_placeOf {target : Source.Expr} (h : K → ∀ id ∈ target.memberId?, c.Knows id)
    (operands : List Script.Expr) :
    Tells c K (placeOf c target operands) (accessDefects c target) := by
  cases target with
  | localVar i id => exact (tells_readVariable id).andThen fun _ => .pure _
  | field i object id =>
    have hid := fun hK => h hK id rfl
    exact (silent_placeReceiver hid _ _).after fun _ =>
      (tells_fieldName hid).andThen fun _ => .pure _
  | property i object id =>
    have hid := fun hK => h hK id rfl
    exact (silent_placeReceiver hid _ _).after fun _ => tells_propertyPlace hid _ _
  | indexer i object id arguments =>
    exact tells_propertyPlace (fun hK => h hK id rfl) _ _
  | _ => exact .pure _

/-! ## Expressions around their operands -/

/-- What is no target is told. -/
lemma tells_announce (e : Source.Expr) : Tells c K (announce e) (targetDefects e) := by
  have htarget : ∀ target : Source.Expr, Tells c K (announceTarget target)
      (if target.isTarget then [] else ["Assignment target is not assignable"]) := by
    intro target
    unfold announceTarget
    cases target.isTarget with
    | true => exact .pure _
    | false => exact tells_internalError _
  cases e with
  | assign i op target value => exact htarget target
  | increment i kind target => exact htarget target
  | _ => exact .pure _

/-- Completing a strict expression reports the defects of what it asks for. -/
lemma tells_complete {e : Source.Expr} (h : K → ∀ id ∈ (Node.expr e).members, c.Knows id)
    (hstrict : e.isStrict = true) (important : Bool) (operands : Operands) :
    Tells c K (complete c e important operands) (exprDefects c e) := by
  have hmember : ∀ id, e.memberId? = some id → (Node.expr e).members = e.memberId?.toList →
      K → c.Knows id := by
    intro id hid hmembers hK
    exact h hK id (by simp [hmembers, hid])
  cases e with
  | localVar i id => exact (tells_readVariable id).andThen fun _ => .pure _
  | field i target id =>
    have hid := hmember id rfl rfl
    exact (silent_placeReceiver hid _ _).after fun _ =>
      (tells_fieldName hid).andThen fun _ => .pure _
  | property i target id =>
    have hid := hmember id rfl rfl
    exact (silent_placeReceiver hid _ _).after fun _ =>
      (tells_getProperty hid _ _).andThen fun _ => .pure _
  | indexer i target id arguments =>
    exact (tells_getProperty (hmember id rfl rfl) _ _).andThen fun _ => .pure _
  | call i target id arguments =>
    have hid := hmember id rfl rfl
    exact (silent_placeReceiver hid _ _).after fun _ =>
      (tells_methodName hid).andThen fun _ => .pure _
  | create i id arguments =>
    exact (tells_createObject (hmember id rfl rfl) _).andThen fun _ => .pure _
  | assign i op target value =>
    have htarget := fun hK id hid => h hK id (Option.mem_toList.mpr hid)
    exact (tells_placeOf htarget _).andThen_of (valid_placeOf _ _) fun _ hvalid =>
      (silent_assignPlace hvalid op target value _ _).after fun _ => .pure _
  | increment i kind target =>
    have htarget := fun hK id hid => h hK id (Option.mem_toList.mpr hid)
    exact (tells_placeOf htarget _).andThen_of (valid_placeOf _ _) fun _ hvalid =>
      (silent_incrementPlace hvalid kind _).after fun _ => .pure _
  | conditional => cases hstrict
  | lambda => cases hstrict
  | _ => exact .pure _

end Lowering

end ScriptCompiler
