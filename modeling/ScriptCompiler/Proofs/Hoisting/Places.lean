import ScriptCompiler.Proofs.Hoisting.Capture

/-!
# Places and the slots that they denote

A place is evaluated in two steps: its sub-expressions (`Place.parts`) are evaluated in turn, and
their values give the slot that it denotes (`Place.locate`).  A place without accessors is an
expression of the script that denotes and reads this slot.

`Place.Assignable` says which places lowering makes.
-/

namespace ScriptCompiler.Lowering

open Machine

variable {V H : Type*}

/-! ## Forms of members -/

section

variable {c : Context} {id : MemberId}

/-- The form of a member that has one. -/
lemma getForm_eq {form : MemberForm} (h : c.naming.form? c.program id = some form) :
    getForm c id = pure form := by
  simp [getForm, require, h]

/-- The setter of a property behind accessors. -/
lemma setterName_eq {getter setter : String}
    (h : c.naming.form? c.program id = some (.property getter setter)) :
    Place.setterName c id = pure setter := by
  simp [Place.setterName, getForm_eq h]

/-- The value of a property behind accessors is the result of its getter. -/
lemma getProperty_eq {getter setter : String} (object : Script.Expr)
    (arguments : List Script.Expr)
    (h : c.naming.form? c.program id = some (.property getter setter)) :
    getProperty c object id arguments = pure (.call (.member object getter) arguments) := by
  simp [getProperty, getForm_eq h]

end

/-! ## Places and slots -/

namespace Place

/-- The sub-expressions of a place, in the order of their evaluation. -/
def parts : Place → List Script.Expr
  | .direct (.member target _) => [target]
  | .direct (.index target key) => [target, key]
  | .accessor object _ arguments => object :: arguments
  | _ => []

/-- The slot that a place denotes in the memory `t` if its sub-expressions have the values `vs`. -/
def locate (P : Primitives V H) (c : Context) :
    Place → List V → Memory String V H → Slot String V
  | .binding (.ident x), _, _ => .var x
  | .binding (.member (.ident x) name), _, t => .member (Script.lookup P t x) name
  | .direct (.member _ name), vs, _ => .member (vs.headD P.null) name
  | .direct (.index _ _), vs, _ => .element (vs.headD P.null) (vs.tail.headD P.null)
  | .accessor _ id _, vs, _ =>
    match c.naming.form? c.program id with
    | some (.property getter setter) => .accessor (vs.headD P.null) getter setter vs.tail
    | _ => .nowhere
  | _, _, _ => .nowhere

/-- A place that lowering makes from an assignable target.  Its variable is one of `A`, and its
sub-expressions are tame. -/
inductive Assignable (c : Context) (A : VariableId → Prop) (n : ℕ) : Place → Prop
  | plain {id : VariableId} {x : String} : A id → c.NamesPlain id x →
      Assignable c A n (.binding (.ident x))
  | contained {id : VariableId} {v : Variable} : c.scope.get? id = some v →
      v.byReference = true →
      Assignable c A n (.binding (.member (.ident v.name) c.options.referenceField))
  | member {object : Script.Expr} (name : String) : Tame c A n object →
      Assignable c A n (.direct (.member object name))
  | index {object key : Script.Expr} : Tame c A n object → Tame c A n key →
      Assignable c A n (.direct (.index object key))
  | accessor {object : Script.Expr} {arguments : List Script.Expr} {id : MemberId}
      {getter setter : String} :
      c.naming.form? c.program id = some (.property getter setter) →
      (∀ e ∈ object :: arguments, Tame c A n e) → Assignable c A n (.accessor object id arguments)

end Place

section

variable {P : Primitives V H} {c : Context} {A : VariableId → Prop} {n m m' : ℕ}
  {place : Place} {location : Script.Expr}

open Place

/-- The sub-expressions of an assignable place are tame. -/
lemma Place.Assignable.tame_parts (h : place.Assignable c A n) :
    ∀ e ∈ place.parts, Tame c A n e := by
  cases h with
  | plain => simp [parts]
  | contained => simp [parts]
  | member name ho => simpa [parts] using ho
  | index ho hk => simpa [parts] using ⟨ho, hk⟩
  | accessor hform hes => exact hes

/-- A later bound on the temporaries. -/
lemma Place.Assignable.mono {n' : ℕ} (h : place.Assignable c A n) (hn : n ≤ n') :
    place.Assignable c A n' := by
  cases h with
  | plain hA hx => exact .plain hA hx
  | contained hv href => exact .contained hv href
  | member name ho => exact .member name (ho.mono hn)
  | index ho hk => exact .index (ho.mono hn) (hk.mono hn)
  | accessor hform hes => exact .accessor hform fun e he => (hes e he).mono hn

/-- A place without accessors is a location of the script, which denotes the slot of the place. -/
lemma Place.Assignable.slot (h : place.Assignable c A n)
    (hl : place = .binding location ∨ place = .direct location) (t : Memory String V H) :
    location.slot P t = (place.locate P c (Script.evalAll P place.parts t).1 t,
      (Script.evalAll P place.parts t).2) := by
  cases h with
  | plain _ hx =>
    obtain rfl : location = .ident _ := by simpa [eq_comm] using hl
    simp [Script.Expr.slot, locate, parts, Script.evalAll]
  | contained | member =>
    obtain rfl : location = .member _ _ := by simpa [eq_comm] using hl
    rfl
  | index =>
    obtain rfl : location = .index _ _ := by simpa [eq_comm] using hl
    rfl
  | accessor => simp at hl

/-- A place without accessors is a location of the script, which has the value of the slot. -/
lemma Place.Assignable.eval (hc : Grounded P c) (h : place.Assignable c A n)
    (hl : place = .binding location ∨ place = .direct location) (t : Memory String V H) :
    location.eval P t = (place.locate P c (Script.evalAll P place.parts t).1 t).read P
      (Script.evalAll P place.parts t).2 := by
  cases h with
  | plain _ hx =>
    obtain rfl : location = .ident _ := by simpa [eq_comm] using hl
    simp [Script.Expr.eval, hc.lookup_names hx.names, locate, Slot.read, parts, Script.evalAll]
  | contained | member =>
    obtain rfl : location = .member _ _ := by simpa [eq_comm] using hl
    rfl
  | index =>
    obtain rfl : location = .index _ _ := by simpa [eq_comm] using hl
    rfl
  | accessor => simp at hl

/-- The location of a place mentions what its sub-expressions mention, and assigns what these
assign. -/
lemma Place.Assignable.tame_location (hc : Grounded P c) (h : place.Assignable c A n)
    (hl : place = .binding location ∨ place = .direct location) : Tame c A n location := by
  have hident : ∀ {id x}, c.Names id x → Tame c A n (.ident x) := by
    intro id x hx
    refine ⟨fun k _ => ?_, fun y hy => by cases hy⟩
    simpa [Script.Expr.mentions] using hc.not_temporary k hx
  cases h with
  | plain _ hx =>
    obtain rfl : location = .ident _ := by simpa [eq_comm] using hl
    exact hident hx.names
  | @contained id v hv href =>
    obtain rfl : location = .member _ _ := by simpa [eq_comm] using hl
    have hx : c.Names id v.name := ⟨v, hv, rfl⟩
    exact ⟨(hident hx).fresh, (hident hx).writes⟩
  | member name ho =>
    obtain rfl : location = .member _ _ := by simpa [eq_comm] using hl
    exact ⟨ho.fresh, ho.writes⟩
  | index ho hk =>
    obtain rfl : location = .index _ _ := by simpa [eq_comm] using hl
    refine ⟨fun k hn => ?_, fun x hx => ?_⟩
    · simp [Script.Expr.mentions, ho.fresh k hn, hk.fresh k hn]
    · simp only [Script.Expr.writes, Bool.or_eq_true] at hx
      exact hx.elim (ho.writes x) (hk.writes x)
  | accessor => simp at hl

/-- A place is an identifier only if it is a variable of `A`. -/
lemma Place.Assignable.isIdent (h : place.Assignable c A n)
    (hl : place = .binding location ∨ place = .direct location) {x : String}
    (hx : location.isIdent x = true) : ∃ id, A id ∧ c.NamesPlain id x := by
  cases h with
  | @plain id y hA hy =>
    obtain rfl : location = .ident _ := by simpa [eq_comm] using hl
    obtain rfl : y = x := by simpa [Script.Expr.isIdent] using hx
    exact ⟨id, hA, hy⟩
  | contained | member =>
    obtain rfl : location = .member _ _ := by simpa [eq_comm] using hl
    simp [Script.Expr.isIdent] at hx
  | index =>
    obtain rfl : location = .index _ _ := by simpa [eq_comm] using hl
    simp [Script.Expr.isIdent] at hx
  | accessor => simp at hl

/-- The slot of a place is no temporary. -/
lemma Place.Assignable.same (hc : Grounded P c) (h : place.Assignable c A n) (vs : List V)
    (t : Memory String V H) :
    Slot.Same (Script.Off (c.Temporaries m m')) (place.locate P c vs t)
      (place.locate P c vs t) := by
  cases h with
  | plain _ hx =>
    refine .var ⟨rfl, ?_⟩
    rintro ⟨k, -, -, hk⟩
    exact hc.not_temporary k hx.names hk
  | contained => exact .member _ _
  | member => exact .member _ _
  | index => exact .element _ _
  | accessor hform => simpa only [locate, hform] using .accessor _ _ _ _

/-- The slot stays the same as long as the containers stay bound to their identifiers. -/
lemma Place.Assignable.locate_eq (hc : Grounded P c) (h : place.Assignable c A n) (vs : List V)
    {t t' : Memory String V H} (ht : Frame c A m m' t t') :
    place.locate P c vs t' = place.locate P c vs t := by
  cases h with
  | @contained id v hv href =>
    have hx : c.Names id v.name := ⟨v, hv, rfl⟩
    simp only [locate, hc.lookup_names hx, ht.container hc hv href]
  | plain => rfl
  | member => rfl
  | index => rfl
  | accessor => rfl

end

end ScriptCompiler.Lowering
