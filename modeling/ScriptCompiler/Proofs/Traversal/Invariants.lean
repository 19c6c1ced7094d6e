import Mathlib.Order.Defs.PartialOrder
import ScriptCompiler.Proofs.Traversal.Steps

/-!
# Invariants of lowering

An invariant says something of the scripts that lowering makes: of values, of the statements that are
hoisted out of expressions and of those that statements become.  What it says may depend on what the
run did so far; this is kept beside the run, in a world that only grows (`Invariant.Tracks`).

An invariant is kept (`Invariant.Kept`) if the steps at the bottom of lowering establish it and the
constructors of scripts pass it on.  Then every operation on values, operands and places passes it
on as well.
-/

namespace ScriptCompiler

/-- Whether an access without target goes through `this`: the member is not known to be static. -/
def Program.implicitThis (p : Program) (target : Option Source.Expr) (id : MemberId) : Bool :=
  target.isNone && !(p.member? id).any (·.isStatic)

/-- Whether the expression is `this` or has it as its implicit object. -/
def Source.Expr.isThis (p : Program) : Source.Expr → Bool
  | .this _ => true
  | .field _ target id | .property _ target id | .call _ target id _ => p.implicitThis target id
  | _ => false

/-- Whether `this` is needed to complete the expression, or to find the place that it changes. -/
def Source.Expr.needsThis (p : Program) : Source.Expr → Bool
  | .assign _ _ target _ | .increment _ _ target => target.isThis p
  | e => e.isThis p

/-- Whether the expression is a constant of the script. -/
def Script.Expr.isLiteral : Script.Expr → Bool
  | .null | .boolean _ | .number _ | .string _ => true
  | _ => false

/-- Whether the statement has no parts. -/
def Script.Stmt.isBare : Script.Stmt → Bool
  | .comment _ | .break | .continue | .empty => true
  | _ => false

namespace Lowering

variable {α β W : Type} {c : Context}

/-! ## Results of steps -/

/-- A member that is not known counts as an instance member. -/
lemma gives_getMember (id : MemberId) :
    Gives (getMember c id) fun m => m.isStatic = (c.program.member? id).any (·.isStatic) := by
  unfold getMember
  cases c.program.member? id with
  | none => exact gives_bind fun _ => .pure rfl
  | some m => exact .pure rfl

/-- A statement that puts a parameter into its container. -/
def Wraps (c : Context) (names : List String) (s : Script.Stmt) : Prop :=
  ∃ id v, c.scope.get? id = some v ∧ v.byReference = true ∧ v.name ∈ names ∧
    s = .expr (.set (.ident v.name) (container c (.ident v.name)))

/-- Before the body of a function, parameters are put into containers and nothing else happens. -/
lemma gives_lambdaParameters (parameters : List VariableId) :
    Gives (lambdaParameters c parameters) fun head => ∀ s ∈ head.2, Wraps c head.1 s := by
  -- one more name in front does not matter to the others
  have hmore : ∀ {names : List String} {entry : List Script.Stmt} (name : String),
      (∀ s ∈ entry, Wraps c names s) → ∀ s ∈ entry, Wraps c (name :: names) s := by
    intro names entry name h s hs
    obtain ⟨id, v, hv, href, hmem, rfl⟩ := h s hs
    exact ⟨id, v, hv, href, List.mem_cons_of_mem _ hmem, rfl⟩
  induction parameters with
  | nil => exact .pure fun _ hs => (by cases hs)
  | cons id rest ih =>
    unfold lambdaParameters
    cases hv : c.scope.get? id with
    | none => exact gives_bind fun _ => ih.bind fun head hhead => .pure (hmore _ hhead)
    | some v =>
      refine ih.bind fun head hhead => .pure ?_
      refine List.forall_mem_append.mpr ⟨fun s hs => ?_, hmore _ hhead⟩
      by_cases href : v.byReference = true
      · rw [if_pos href] at hs
        exact ⟨id, v, hv, href, List.mem_cons_self, List.mem_singleton.mp hs⟩
      · rw [if_neg href] at hs
        cases hs

/-- What a lambda prepares are wrappers. -/
lemma gives_lambdaHead (id : LambdaId) (parameters : List VariableId) :
    Gives (lambdaHead c id parameters) fun head => ∀ s ∈ head.2, Wraps c head.1 s := by
  unfold lambdaHead
  split
  · exact gives_bind fun _ => gives_lambdaParameters parameters
  · exact gives_lambdaParameters parameters

/-! ## Invariants -/

/-- What is said of scripts, world by world. -/
structure Invariant (W : Type) where
  /-- The run stands where the world ends. -/
  At : W → State → Prop
  /-- Said of values; a value that is only passed by reference may have less to satisfy. -/
  Holds (w : W) (byReference : Bool) (e : Script.Expr) : Prop
  /-- Said of statements; those that are hoisted out of expressions may have more to satisfy. -/
  Stmts (w : W) (hoisted : Bool) (statements : List Script.Stmt) : Prop
  /-- Said of the bindings of a declaration. -/
  Bound : W → List Script.Binding → Prop

/-- Which of the arguments are passed by reference. -/
def passed (arguments : List Source.Argument) : List Bool :=
  arguments.map (·.mode.isReference)

namespace Invariant

variable (I : Invariant W)

/-- A value that may stand anywhere. -/
abbrev Plain (w : W) (e : Script.Expr) : Prop :=
  I.Holds w false e

/-- A value that may be passed on as an argument. -/
abbrev Passes (w : W) (e : Script.Expr) : Prop :=
  I.Holds w true e

/-- Statements that may stand before the value of an expression. -/
abbrev Hoisted (w : W) (statements : List Script.Stmt) : Prop :=
  I.Stmts w true statements

/-- Statements that may stand anywhere. -/
abbrev Emitted (w : W) (statements : List Script.Stmt) : Prop :=
  I.Stmts w false statements

/-- A lowered operand and the statements before it. -/
structure Sound (w : W) (byReference : Bool) (l : Lowered) : Prop where
  before : I.Hoisted w l.before
  value : I.Holds w byReference l.value

/-- Lowered operands, some of them passed by reference, and the statements before them. -/
structure SoundAll (w : W) (kinds : List Bool) (operands : Operands) : Prop where
  before : I.Hoisted w operands.before
  values : List.Forall₂ (I.Holds w) kinds operands.values

/-- A place whose sub-expressions were lowered. -/
def SoundPlace (w : W) : Place → Prop
  | .direct (.member target _) => I.Plain w target
  | .direct (.index target key) => I.Plain w target ∧ I.Passes w key
  | .binding location | .direct location => I.Plain w location
  | .accessor object _ arguments =>
    I.Plain w object ∧ ∃ kinds, List.Forall₂ (I.Holds w) kinds arguments

section Positions

variable {I} {w : W} {es : List Script.Expr} {kinds : List Bool} {byReference : Bool}

/-- Operands passed by value are plain. -/
lemma plain_of_values (hkinds : ∀ kind ∈ kinds, kind = false)
    (h : List.Forall₂ (I.Holds w) kinds es) : ∀ e ∈ es, I.Plain w e := by
  induction h with
  | nil => simp
  | cons he _ ih =>
    obtain ⟨rfl, hrest⟩ := List.forall_mem_cons.mp hkinds
    exact List.forall_mem_cons.mpr ⟨he, ih hrest⟩

/-- The first value holds. -/
lemma holds_headD (h : List.Forall₂ (I.Holds w) (byReference :: kinds) es) :
    I.Holds w byReference (es.headD .null) := by
  obtain _ | ⟨he, _⟩ := h
  exact he

/-- So do the others. -/
lemma values_tail (h : List.Forall₂ (I.Holds w) (byReference :: kinds) es) :
    List.Forall₂ (I.Holds w) kinds es.tail := by
  obtain _ | ⟨_, hrest⟩ := h
  exact hrest

/-- The last operand and those before it. -/
lemma values_concat (h : List.Forall₂ (I.Holds w) (kinds ++ [byReference]) es) :
    List.Forall₂ (I.Holds w) kinds es.dropLast ∧
      I.Holds w byReference (es.getLast?.getD .null) := by
  induction kinds generalizing es with
  | nil =>
    obtain _ | ⟨he, _ | _⟩ := h
    exact ⟨.nil, he⟩
  | cons kind kinds ih =>
    obtain _ | ⟨he, hrest⟩ := h
    rename_i e rest
    obtain ⟨hfront, hlast⟩ := ih hrest
    have hne : rest ≠ [] := by
      rintro rfl
      cases kinds <;> cases hrest
    rw [List.dropLast_cons_of_ne_nil hne, List.getLast?_cons_of_ne_nil hne]
    exact ⟨.cons he hfront, hlast⟩

/-- The object of an access is plain, if there is one. -/
lemma plain_receiver {target : Option Source.Expr}
    (hkinds : passed (target.map (.mk .value)).toList <+: kinds)
    (h : List.Forall₂ (I.Holds w) kinds es) (hsome : target.isSome) :
    I.Plain w (es.headD .null) := by
  obtain ⟨e, rfl⟩ := Option.isSome_iff_exists.mp hsome
  obtain ⟨rest, rfl⟩ := hkinds
  exact holds_headD h

end Positions

variable [Preorder W]

/-- Run where the world ends, the step ends where a later world does, and `Q` holds of the result and
that world. -/
def Tracks (step : Lower α) (w : W) (Q : α → W → Prop) : Prop :=
  ∀ s, I.At w s → ∃ w', w ≤ w' ∧ I.At w' (step s).2 ∧ Q (step s).1 w'

namespace Tracks

variable {I} {w : W}

lemma pure {a : α} {Q : α → W → Prop} (h : Q a w) : I.Tracks (Pure.pure a) w Q :=
  fun _ hs => ⟨w, le_refl w, hs, h⟩

/-- Steps are tracked in turn. -/
lemma bind {step : Lower α} {next : α → Lower β} {R : α → W → Prop} {Q : β → W → Prop}
    (h : I.Tracks step w R) (hnext : ∀ a w', w ≤ w' → R a w' → I.Tracks (next a) w' Q) :
    I.Tracks (step >>= next) w Q := by
  intro s hs
  obtain ⟨w', hle, hs', hR⟩ := h s hs
  obtain ⟨w'', hle', hs'', hQ⟩ := hnext _ w' hle hR _ hs'
  exact ⟨w'', le_trans hle hle', hs'', hQ⟩

/-- A tracked step may promise less. -/
lemma mono {step : Lower α} {R Q : α → W → Prop} (h : I.Tracks step w R)
    (hQ : ∀ a w', w ≤ w' → R a w' → Q a w') : I.Tracks step w Q := by
  intro s hs
  obtain ⟨w', hle, hs', hR⟩ := h s hs
  exact ⟨w', hle, hs', hQ _ w' hle hR⟩

/-- What holds in every run may be used along with the world. -/
lemma gives {step : Lower α} {Q : α → W → Prop} {R : α → Prop} (h : I.Tracks step w Q)
    (hR : Gives step R) : I.Tracks step w fun a _ => R a := by
  intro s hs
  obtain ⟨w', hle, hs', -⟩ := h s hs
  exact ⟨w', hle, hs', hR s⟩

end Tracks

/-- The invariant is kept by lowering, as far as the nodes of the source are admitted. -/
structure Kept (c : Context) (admits : Source.Node → Prop) : Prop where
  -- a later world takes nothing back
  holds_mono {w w' : W} {byReference : Bool} {e : Script.Expr} :
    I.Holds w byReference e → w ≤ w' → I.Holds w' byReference e
  stmts_mono {w w' : W} {hoisted : Bool} {b : List Script.Stmt} :
    I.Stmts w hoisted b → w ≤ w' → I.Stmts w' hoisted b
  bound_mono {w w' : W} {bs : List Script.Binding} : I.Bound w bs → w ≤ w' → I.Bound w' bs
  -- the steps at the bottom
  composed {α : Type} {step : Lower α} : Composed c step → ∀ w, I.Tracks step w fun _ _ => True
  newTemporary (w : W) : I.Tracks (newTemporary c) w fun t w' => I.Plain w' (.ident t) ∧
    ∀ initializer, (∀ e ∈ initializer, I.Plain w' e) → I.Hoisted w' [.var t initializer]
  typeReference (id : TypeId) (w : W) : I.Tracks (typeReference c id) w fun e w' => I.Plain w' e
  readVariable (id : VariableId) (w : W) : I.Tracks (readVariable c id) w fun e w' => I.Plain w' e
  passReference {e : Source.Expr} {a : Source.Argument} (w : W) : admits (.expr e) →
    a ∈ e.inTurn → a.mode.isReference = true →
      I.Tracks (passReference c a.value) w fun e w' => I.Passes w' e
  captures {w : W} {e : Script.Expr} : I.Passes w e →
    I.Plain w e ∨ I.Tracks (spill c e) w fun l w' => I.Sound w' true l
  -- values
  this {e : Source.Expr} : admits (.expr e) → e.needsThis c.program = true →
    ∀ w, I.Plain w .this
  lambda {i : Source.Info} {id : LambdaId} {parameters : List VariableId}
    {body : Source.LambdaBody} {important : Bool} {s : State} {head : List String × List Script.Stmt}
    {statements : List Script.Stmt} {w : W} : admits (.expr (.lambda i id parameters body)) →
    (lowerExpr c (.lambda i id parameters body) important s).1 = lambdaValue c id head statements →
    (∀ s ∈ head.2, Wraps c head.1 s) → I.Emitted w statements →
      I.Plain w (lambdaValue c id head statements).value
  passes {w : W} {e : Script.Expr} : I.Plain w e → I.Passes w e
  literal {w : W} {e : Script.Expr} : e.isLiteral = true → I.Plain w e
  member {w : W} {e : Script.Expr} {name : String} : I.Plain w e → I.Plain w (.member e name)
  index {w : W} {e key : Script.Expr} : I.Plain w e → I.Passes w key → I.Plain w (.index e key)
  call {w : W} {e : Script.Expr} {arguments : List Script.Expr} : I.Plain w e →
    (∀ a ∈ arguments, I.Passes w a) → I.Plain w (.call e arguments)
  new {w : W} {e : Script.Expr} {arguments : List Script.Expr} : I.Plain w e →
    (∀ a ∈ arguments, I.Passes w a) → I.Plain w (.new e arguments)
  array {w : W} {items : List Script.Expr} : (∀ e ∈ items, I.Plain w e) → I.Plain w (.array items)
  binary {w : W} {op : Script.BinaryOp} {left right : Script.Expr} : I.Plain w left →
    I.Plain w right → I.Plain w (.binary op left right)
  unary {w : W} {op : Script.UnaryOp} {e : Script.Expr} : I.Plain w e → I.Plain w (.unary op e)
  update {w : W} {op : Script.UpdateOp} {e : Script.Expr} : I.Plain w e → I.Plain w (.update op e)
  assign {w : W} {op : Option Script.BinaryOp} {target value : Script.Expr} : I.Plain w target →
    I.Plain w value → I.Plain w (.assign op target value)
  conditional {w : W} {condition whenTrue whenFalse : Script.Expr} : I.Plain w condition →
    I.Plain w whenTrue → I.Plain w whenFalse → I.Plain w (.conditional condition whenTrue whenFalse)
  -- statements
  nil {w : W} {hoisted : Bool} : I.Stmts w hoisted []
  append {w : W} {hoisted : Bool} {b b' : List Script.Stmt} : I.Stmts w hoisted b →
    I.Stmts w hoisted b' → I.Stmts w hoisted (b ++ b')
  emitted {w : W} {b : List Script.Stmt} : I.Hoisted w b → I.Emitted w b
  expr {w : W} {hoisted : Bool} {e : Script.Expr} : I.Plain w e → I.Stmts w hoisted [.expr e]
  block {w : W} {hoisted : Bool} {b : List Script.Stmt} : I.Stmts w hoisted b →
    I.Stmts w hoisted [.block b]
  branch {w : W} {hoisted : Bool} {e : Script.Expr} {s : Script.Stmt} {o : Option Script.Stmt} :
    I.Plain w e → I.Stmts w hoisted [s] → (∀ t ∈ o, I.Stmts w hoisted [t]) →
      I.Stmts w hoisted [.branch e s o]
  bare {w : W} {s : Script.Stmt} : s.isBare = true → I.Emitted w [s]
  whileLoop {w : W} {e : Script.Expr} {s : Script.Stmt} : I.Plain w e → I.Emitted w [s] →
    I.Emitted w [.whileLoop e s]
  doWhile {w : W} {body : List Script.Stmt} {condition : Lowered} : I.Emitted w body →
    I.Sound w false condition →
      I.Tracks (doWhileStmts body condition) w fun out w' => I.Emitted w' out
  returns {w : W} {value : Option Script.Expr} : (∀ e ∈ value, I.Plain w e) →
    I.Emitted w [.return value]
  throw {w : W} {e : Script.Expr} : I.Plain w e → I.Emitted w [.throw e]
  declare {w : W} {bs : List Script.Binding} : I.Bound w bs → I.Emitted w [.declare bs]
  bound_nil {w : W} : I.Bound w []
  bound_append {w : W} {bs bs' : List Script.Binding} : I.Bound w bs → I.Bound w bs' →
    I.Bound w (bs ++ bs')
  bindingOf {w : W} {id : VariableId} {v : Variable} {initializer : Option Script.Expr} :
    c.scope.get? id = some v → (∀ e ∈ initializer, I.Plain w e) →
      I.Bound w [bindingOf c v initializer]

end Invariant

namespace Invariant.Kept

variable [Preorder W] {I : Invariant W} {admits : Source.Node → Prop} (K : I.Kept c admits)

include K

/-! ## Captured values -/

section Capture

variable {w w' : W} {e : Script.Expr} {es : List Script.Expr} {kinds : List Bool}
  {byReference : Bool}

/-- Soundness lasts. -/
lemma sound_mono {l : Lowered} (h : I.Sound w byReference l) (hle : w ≤ w') :
    I.Sound w' byReference l :=
  ⟨K.stmts_mono h.before hle, K.holds_mono h.value hle⟩

/-- So does what values hold. -/
lemma values_mono (h : List.Forall₂ (I.Holds w) kinds es) (hle : w ≤ w') :
    List.Forall₂ (I.Holds w') kinds es :=
  h.imp fun _ _ he => K.holds_mono he hle

/-- A plain value is sound. -/
lemma value (h : I.Plain w e) : I.Sound w false { value := e } :=
  ⟨K.nil, h⟩

/-- A value that holds can be passed. -/
lemma passes_of_holds (h : I.Holds w byReference e) : I.Passes w e := by
  cases byReference with
  | true => exact h
  | false => exact K.passes h

/-- So can several. -/
lemma passes_of_values (h : List.Forall₂ (I.Holds w) kinds es) : ∀ e ∈ es, I.Passes w e := by
  induction h with
  | nil => simp
  | cons he _ ih => exact List.forall_mem_cons.mpr ⟨K.passes_of_holds he, ih⟩

lemma passes_headD (h : ∀ e ∈ es, I.Passes w e) : I.Passes w (es.headD .null) := by
  cases es with
  | nil => exact K.passes (K.literal rfl)
  | cons e rest => exact h e List.mem_cons_self

/-- A captured value is sound. -/
lemma tracks_spill (h : I.Holds w byReference e) :
    I.Tracks (spill c e) w fun l w' => I.Sound w' byReference l := by
  have hplain : I.Plain w e → I.Tracks (spill c e) w fun l w' => I.Sound w' false l := by
    intro h
    unfold spill
    refine (K.composed (composed_isStable c e) w).bind fun stable w₁ hle _ => ?_
    have h := K.holds_mono h hle
    split
    · exact .pure (K.value h)
    · refine (K.newTemporary w₁).bind fun t w₂ hle' ht => .pure ⟨ht.2 _ ?_, ht.1⟩
      exact fun _ he => Option.some.inj he ▸ K.holds_mono h hle'
  cases byReference with
  | false => exact hplain h
  | true =>
    rcases K.captures h with h | h
    · exact (hplain h).mono fun l w' _ hl => ⟨hl.before, K.passes hl.value⟩
    · exact h

/-- So it is where a later value is looked at. -/
lemma tracks_spillBefore (later : Script.Expr) (h : I.Holds w byReference e) :
    I.Tracks (spillBefore c later e) w fun l w' => I.Sound w' byReference l := by
  unfold spillBefore
  split
  · split
    · exact K.tracks_spill h
    · exact .pure ⟨K.nil, h⟩
  · exact K.tracks_spill h

/-- Values are captured one after the other, in whichever way each of them is. -/
lemma tracks_captureAll {capture : Script.Expr → Lower Lowered}
    {captureAll : List Script.Expr → Lower Operands} (hnil : captureAll [] = pure {})
    (hcons : ∀ e rest, captureAll (e :: rest) = do
      let first ← capture e
      let others ← captureAll rest
      return { before := first.before ++ others.before, values := first.value :: others.values })
    (hcapture : ∀ {w e byReference}, I.Holds w byReference e →
      I.Tracks (capture e) w fun l w' => I.Sound w' byReference l)
    (h : List.Forall₂ (I.Holds w) kinds es) :
    I.Tracks (captureAll es) w fun r w' => I.SoundAll w' kinds r := by
  induction es generalizing kinds w with
  | nil =>
    cases h
    rw [hnil]
    exact .pure ⟨K.nil, .nil⟩
  | cons e rest ih =>
    obtain _ | ⟨he, hrest⟩ := h
    rw [hcons]
    refine (hcapture he).bind fun first w₁ hle hfirst => ?_
    refine (ih (K.values_mono hrest hle)).bind fun others w₂ hle' hothers => .pure ?_
    have hfirst := K.sound_mono hfirst hle'
    exact ⟨K.append hfirst.before hothers.before, .cons hfirst.value hothers.values⟩

/-- Captured values are sound. -/
lemma tracks_spillAll (h : List.Forall₂ (I.Holds w) kinds es) :
    I.Tracks (spillAll c es) w fun r w' => I.SoundAll w' kinds r :=
  K.tracks_captureAll rfl (fun _ _ => rfl) K.tracks_spill h

/-- So they are where a later value is looked at. -/
lemma tracks_spillAllBefore (later : Script.Expr) (h : List.Forall₂ (I.Holds w) kinds es) :
    I.Tracks (spillAllBefore c later es) w fun r w' => I.SoundAll w' kinds r :=
  K.tracks_captureAll rfl (fun _ _ => rfl) (K.tracks_spillBefore later) h

/-- Operands stay sound when one is added. -/
lemma tracks_add {operands : Operands} {operand : Lowered} (h : I.SoundAll w kinds operands)
    (h' : I.Sound w byReference operand) :
    I.Tracks (operands.add c operand) w fun r w' => I.SoundAll w' (kinds ++ [byReference]) r := by
  unfold Operands.add
  split
  · exact .pure ⟨h.before, List.rel_append h.values (.cons h'.value .nil)⟩
  · refine (K.tracks_spillAll h.values).bind fun earlier w₁ hle hearlier => .pure ?_
    have h' := K.sound_mono h' hle
    refine ⟨K.append (K.append (K.stmts_mono h.before hle) hearlier.before) h'.before, ?_⟩
    exact List.rel_append hearlier.values (.cons h'.value .nil)

end Capture

/-! ## Variables and members -/

section Members

variable {w : W} {object : Script.Expr} {arguments : List Script.Expr}

/-- The implicit receiver is plain. -/
lemma tracks_implicitReceiver {id : MemberId}
    (hthis : c.program.implicitThis none id = true → ∀ w, I.Plain w .this) :
    I.Tracks (implicitReceiver c id) w fun e w' => I.Plain w' e := by
  refine ((K.composed (composed_require _) w).gives (gives_getMember id)).bind fun m w₁ _ hm => ?_
  split
  · exact K.typeReference _ w₁
  · next hstatic =>
    refine .pure (hthis ?_ w₁)
    rw [hm, Bool.not_eq_true] at hstatic
    rw [Program.implicitThis, hstatic]
    rfl

/-- So is the receiver of a place. -/
lemma tracks_placeReceiver {id : MemberId} {target : Option Source.Expr}
    (hthis : c.program.implicitThis target id = true → ∀ w, I.Plain w .this)
    (h : target.isSome → I.Plain w (arguments.headD .null)) :
    I.Tracks (placeReceiver c id target arguments) w fun e w' => I.Plain w' e := by
  cases target with
  | none => exact K.tracks_implicitReceiver hthis
  | some e => exact .pure (h rfl)

/-- So is the value of a property. -/
lemma tracks_getProperty (hobject : I.Plain w object) (harguments : ∀ a ∈ arguments, I.Passes w a)
    (id : MemberId) :
    I.Tracks (getProperty c object id arguments) w fun e w' => I.Plain w' e := by
  unfold getProperty
  refine (K.composed (composed_require _) w).bind fun form w₁ hle _ => ?_
  have hobject := K.holds_mono hobject hle
  have harguments : ∀ a ∈ arguments, I.Passes w₁ a := fun a ha => K.holds_mono (harguments a ha) hle
  split
  · exact .pure (K.call (K.member hobject) harguments)
  · exact .pure (K.member hobject)
  · exact .pure (K.member hobject)
  · exact .pure (K.index hobject (K.passes_headD harguments))
  · exact (K.composed (composed_unexpectedForm c id _) w₁).bind fun _ w₂ _ _ =>
      .pure (K.literal rfl)

/-- So is a new object. -/
lemma tracks_createObject (harguments : ∀ a ∈ arguments, I.Passes w a) (id : MemberId) :
    I.Tracks (createObject c id arguments) w fun e w' => I.Plain w' e := by
  unfold createObject
  refine (K.composed (composed_require _) w).bind fun m w₁ hle₁ _ => ?_
  refine (K.typeReference _ w₁).bind fun type w₂ hle₂ htype => ?_
  refine (K.composed (composed_require _) w₂).bind fun form w₃ hle₃ _ => ?_
  have htype := K.holds_mono htype hle₃
  have harguments : ∀ a ∈ arguments, I.Passes w₃ a := fun a ha =>
    K.holds_mono (harguments a ha) (le_trans hle₁ (le_trans hle₂ hle₃))
  split
  · exact .pure (K.new htype harguments)
  · exact .pure (K.new (K.member htype) harguments)
  · refine (K.composed (composed_unexpectedForm c id _) w₃).bind fun _ w₄ hle₄ _ => .pure ?_
    exact K.new (K.holds_mono htype hle₄) fun a ha => K.holds_mono (harguments a ha) hle₄

end Members

/-! ## Places -/

section Places

variable {w w' : W} {place : Place} {location value object : Script.Expr}

/-- Soundness of a place lasts. -/
lemma place_mono (h : I.SoundPlace w place) (hle : w ≤ w') : I.SoundPlace w' place := by
  unfold SoundPlace at h ⊢
  split at h
  · exact K.holds_mono h hle
  · exact ⟨K.holds_mono h.1 hle, K.holds_mono h.2 hle⟩
  · exact K.holds_mono h hle
  · exact K.holds_mono h hle
  · obtain ⟨hobject, kinds, harguments⟩ := h
    exact ⟨K.holds_mono hobject hle, kinds, K.values_mono harguments hle⟩

/-- A direct place is a plain location. -/
lemma plain_direct (h : I.SoundPlace w (.direct location)) : I.Plain w location := by
  unfold SoundPlace at h
  split at h
  · rename_i heq
    cases heq
    exact K.member h
  · rename_i heq
    cases heq
    exact K.index h.1 h.2
  · rename_i heq
    cases heq
  · rename_i heq
    cases heq
    exact h
  · rename_i heq
    cases heq

/-- The place of a property is sound. -/
lemma tracks_propertyPlace {arguments : List Script.Expr} {kinds : List Bool}
    (hobject : I.Plain w object) (harguments : List.Forall₂ (I.Holds w) kinds arguments)
    (id : MemberId) :
    I.Tracks (propertyPlace c object id arguments) w fun place w' => I.SoundPlace w' place := by
  unfold propertyPlace
  refine (K.composed (composed_require _) w).bind fun form w₁ hle _ => ?_
  have hobject := K.holds_mono hobject hle
  have harguments := K.values_mono harguments hle
  split
  · exact .pure ⟨hobject, kinds, harguments⟩
  · exact .pure hobject
  · exact .pure hobject
  · exact .pure ⟨hobject, K.passes_headD (K.passes_of_values harguments)⟩
  · refine (K.composed (composed_unexpectedForm c id _) w₁).bind fun _ w₂ hle₂ _ => ?_
    refine (K.composed (composed_require _) w₂).bind fun _ w₃ hle₃ _ => .pure ?_
    exact K.holds_mono hobject (le_trans hle₂ hle₃)

/-- So is the place of a target. -/
lemma tracks_placeOf {target : Source.Expr} {operands : List Script.Expr}
    (hthis : target.isThis c.program = true → ∀ w, I.Plain w .this)
    (h : List.Forall₂ (I.Holds w) (passed target.operands) operands) :
    I.Tracks (placeOf c target operands) w fun place w' => I.SoundPlace w' place := by
  cases target with
  | localVar i id =>
    exact (K.readVariable id w).bind fun location w₁ _ hlocation => .pure hlocation
  | field i object id =>
    refine (K.tracks_placeReceiver hthis (plain_receiver List.prefix_rfl h)).bind
      fun receiver w₁ _ hreceiver => ?_
    exact (K.composed (composed_fieldName c id) w₁).bind fun _ w₂ hle _ =>
      .pure (K.holds_mono hreceiver hle)
  | property i object id =>
    refine (K.tracks_placeReceiver hthis (plain_receiver List.prefix_rfl h)).bind
      fun receiver w₁ _ hreceiver => ?_
    exact K.tracks_propertyPlace hreceiver .nil id
  | indexer i object id arguments => exact K.tracks_propertyPlace (holds_headD h) (values_tail h) id
  | element i array index =>
    exact .pure ⟨holds_headD h, K.passes (holds_headD (values_tail h))⟩
  | _ => exact .pure (K.literal rfl)

/-- A place stays sound when its parts are captured. -/
lemma tracks_stabilize (h : I.SoundPlace w place) :
    I.Tracks (place.stabilize c) w fun r w' => I.Hoisted w' r.1 ∧ I.SoundPlace w' r.2 := by
  unfold Place.stabilize
  split
  · refine (K.tracks_spill h).bind fun target w₁ _ htarget => ?_
    exact .pure ⟨htarget.before, htarget.value⟩
  · obtain ⟨htarget, hkey⟩ := h
    refine (K.tracks_spill htarget).bind fun target w₁ hle htarget => ?_
    refine (K.tracks_spill (K.holds_mono hkey hle)).bind fun key w₂ hle' hkey => .pure ?_
    have htarget := K.sound_mono htarget hle'
    exact ⟨K.append htarget.before hkey.before, htarget.value, hkey.value⟩
  · obtain ⟨hobject, kinds, harguments⟩ := h
    refine (K.tracks_spill hobject).bind fun object w₁ hle hobject => ?_
    refine (K.tracks_spillAll (K.values_mono harguments hle)).bind
      fun arguments w₂ hle' harguments => .pure ?_
    have hobject := K.sound_mono hobject hle'
    exact ⟨K.append hobject.before harguments.before, hobject.value, kinds, harguments.values⟩
  · exact .pure ⟨K.nil, h⟩

/-- A sound place has a plain value. -/
lemma tracks_load (h : I.SoundPlace w place) :
    I.Tracks (place.load c) w fun e w' => I.Plain w' e := by
  cases place with
  | binding location => exact .pure h
  | direct location => exact .pure (K.plain_direct h)
  | accessor object id arguments =>
    obtain ⟨hobject, kinds, harguments⟩ := h
    exact K.tracks_getProperty hobject (K.passes_of_values harguments) id

/-- The call of a setter. -/
lemma plain_setter {arguments : List Script.Expr} {kinds : List Bool} (setter : String)
    (hobject : I.Plain w object) (harguments : List.Forall₂ (I.Holds w) kinds arguments)
    (hvalue : I.Plain w value) :
    I.Plain w (.call (.member object setter) (arguments ++ [value])) :=
  K.call (K.member hobject) (List.forall_mem_append.mpr
    ⟨K.passes_of_values harguments, List.forall_mem_singleton.mpr (K.passes hvalue)⟩)

/-- Writing to it is sound. -/
lemma tracks_store (h : I.SoundPlace w place) (hvalue : I.Plain w value) (important : Bool) :
    I.Tracks (place.store c value important) w fun l w' => I.Sound w' false l := by
  cases place with
  | binding location => exact .pure (K.value (K.assign h hvalue))
  | direct location => exact .pure (K.value (K.assign (K.plain_direct h) hvalue))
  | accessor object id arguments =>
    obtain ⟨hobject, kinds, harguments⟩ := h
    unfold Place.store
    refine (K.composed (composed_setterName c id) w).bind fun setter w₁ hle₁ _ => ?_
    have hobject := K.holds_mono hobject hle₁
    have harguments := K.values_mono harguments hle₁
    have hvalue := K.holds_mono hvalue hle₁
    split
    · exact .pure (K.value (K.plain_setter setter hobject harguments hvalue))
    · refine (K.composed (composed_isStable c value) w₁).bind fun stable w₂ hle₂ _ => ?_
      have hobject := K.holds_mono hobject hle₂
      have harguments := K.values_mono harguments hle₂
      have hvalue := K.holds_mono hvalue hle₂
      split
      · exact .pure ⟨K.expr (K.plain_setter setter hobject harguments hvalue), hvalue⟩
      · refine (K.tracks_spillBefore value hobject).bind fun object w₃ hle₃ hobject => ?_
        refine (K.tracks_spillAllBefore value (K.values_mono harguments hle₃)).bind
          fun arguments w₄ hle₄ harguments => ?_
        refine (K.tracks_spill (K.holds_mono hvalue (le_trans hle₃ hle₄))).bind
          fun captured w₅ hle₅ hcaptured => .pure ⟨?_, hcaptured.value⟩
        have hobject := K.sound_mono hobject (le_trans hle₄ hle₅)
        have hvalues := K.values_mono harguments.values hle₅
        have hfront := K.append hobject.before (K.stmts_mono harguments.before hle₅)
        exact K.append (K.append hfront hcaptured.before)
          (K.expr (K.plain_setter setter hobject.value hvalues hcaptured.value))

end Places

/-! ## Assignments -/

section Assignments

variable {w : W} {place : Place} {value left right : Script.Expr}

/-- Two plain values combine to one. -/
lemma plain_combine (hleft : I.Plain w left) (hright : I.Plain w right) (op : Source.BinaryOp)
    (integerDivision : Bool) : I.Plain w (combine op integerDivision left right) := by
  unfold combine truncate
  dsimp only
  split
  · exact K.binary (K.binary hleft hright) (K.literal rfl)
  · exact K.binary hleft hright

/-- A plain value is stepped to one. -/
lemma plain_stepped (h : I.Plain w value) (kind : Source.IncrementKind) :
    I.Plain w (stepped kind value) :=
  K.binary h (K.literal rfl)

/-- So is one that is incremented. -/
lemma plain_incrementExpr (h : I.Plain w value) (kind : Source.IncrementKind) :
    I.Plain w (incrementExpr kind value) := by
  cases kind with
  | preIncrement | preDecrement => exact K.unary h
  | postIncrement | postDecrement => exact K.update h

/-- Compound assignments are sound. -/
lemma tracks_compoundAssign (h : I.SoundPlace w place) (hvalue : I.Plain w value)
    (op : Source.BinaryOp) (integerDivision important : Bool) :
    I.Tracks (compoundAssign c op integerDivision place value important) w fun l w' =>
      I.Sound w' false l := by
  unfold compoundAssign
  split
  · exact .pure (K.value (K.assign h hvalue))
  · exact .pure (K.value (K.assign (K.plain_direct h) hvalue))
  · refine (K.tracks_stabilize h).bind fun captured w₁ hle₁ hcaptured => ?_
    refine (K.tracks_load hcaptured.2).bind fun current w₂ hle₂ hcurrent => ?_
    have hcombined := K.plain_combine hcurrent (K.holds_mono hvalue (le_trans hle₁ hle₂)) op
      integerDivision
    refine (K.tracks_store (K.place_mono hcaptured.2 hle₂) hcombined important).bind
      fun stored w₃ hle₃ hstored => .pure ⟨?_, hstored.value⟩
    exact K.append (K.stmts_mono hcaptured.1 (le_trans hle₂ hle₃)) hstored.before

/-- So are all assignments. -/
lemma tracks_assignPlace (h : I.SoundPlace w place) (hvalue : I.Plain w value)
    (op : Option Source.BinaryOp) (target source : Source.Expr) (important : Bool) :
    I.Tracks (assignPlace c op target source place value important) w fun l w' =>
      I.Sound w' false l := by
  unfold assignPlace
  split
  · exact K.tracks_store h hvalue important
  · exact K.tracks_compoundAssign h hvalue _ _ important

/-- So are increments. -/
lemma tracks_incrementPlace (h : I.SoundPlace w place) (kind : Source.IncrementKind)
    (important : Bool) :
    I.Tracks (incrementPlace c kind place important) w fun l w' => I.Sound w' false l := by
  unfold incrementPlace
  split
  · exact .pure (K.value (K.plain_incrementExpr h kind))
  · exact .pure (K.value (K.plain_incrementExpr (K.plain_direct h) kind))
  · refine (K.tracks_stabilize h).bind fun captured w₁ hle₁ hcaptured => ?_
    refine (K.tracks_load hcaptured.2).bind fun current w₂ hle₂ hcurrent => ?_
    have hplace := K.place_mono hcaptured.2 hle₂
    split
    · refine (K.newTemporary w₂).bind fun t w₃ hle₃ ht => ?_
      have hold := ht.2 (some current) fun _ he => Option.some.inj he ▸ K.holds_mono hcurrent hle₃
      refine (K.tracks_store (K.place_mono hplace hle₃) (K.plain_stepped ht.1 kind) false).bind
        fun stored w₄ hle₄ hstored => .pure ⟨?_, K.holds_mono ht.1 hle₄⟩
      have hcaptured := K.stmts_mono hcaptured.1 (le_trans hle₂ (le_trans hle₃ hle₄))
      exact K.append (K.append (K.append hcaptured (K.stmts_mono hold hle₄)) hstored.before)
        (K.expr hstored.value)
    · refine (K.tracks_store hplace (K.plain_stepped hcurrent kind) important).bind
        fun stored w₃ hle₃ hstored => .pure ⟨?_, hstored.value⟩
      exact K.append (K.stmts_mono hcaptured.1 (le_trans hle₂ hle₃)) hstored.before

end Assignments

/-! ## Lazy operators -/

section Lazy

variable {w : W}

/-- A temporary takes the value of a branch. -/
lemma hoisted_taken {l : Lowered} {t : String} (h : I.Sound w false l)
    (ht : I.Plain w (.ident t)) :
    I.Hoisted w [.block (l.before ++ [.expr (.set (.ident t) l.value)])] :=
  K.block (K.append h.before (K.expr (K.assign ht h.value)))

/-- So are operators that skip their right operand. -/
lemma tracks_shortCircuit {left right : Lowered} (hleft : I.Sound w false left)
    (hright : I.Sound w false right) (op : Source.BinaryOp) :
    I.Tracks (shortCircuit c op left right) w fun l w' => I.Sound w' false l := by
  unfold shortCircuit
  split
  · exact .pure ⟨hleft.before, K.binary hleft.value hright.value⟩
  · refine (K.newTemporary w).bind fun t w₁ hle ht => .pure ⟨?_, ht.1⟩
    have hleft := K.sound_mono hleft hle
    have htest : I.Plain w₁ (continuesOn op (.ident t)) := by
      unfold continuesOn
      split
      · exact ht.1
      · exact K.unary ht.1
      · exact K.binary ht.1 (K.literal rfl)
    have hvar := ht.2 (some left.value) fun _ he => Option.some.inj he ▸ hleft.value
    have htaken := K.hoisted_taken (K.sound_mono hright hle) ht.1
    exact K.append hleft.before (K.append hvar (K.branch htest htaken fun _ hnone => by cases hnone))

/-- So are choices. -/
lemma tracks_choose {condition whenTrue whenFalse : Lowered}
    (hcondition : I.Sound w false condition) (htrue : I.Sound w false whenTrue)
    (hfalse : I.Sound w false whenFalse) :
    I.Tracks (choose c condition whenTrue whenFalse) w fun l w' => I.Sound w' false l := by
  unfold choose
  split
  · exact .pure ⟨hcondition.before, K.conditional hcondition.value htrue.value hfalse.value⟩
  · refine (K.newTemporary w).bind fun t w₁ hle ht => .pure ⟨?_, ht.1⟩
    have hcondition := K.sound_mono hcondition hle
    have hvar := ht.2 none fun _ hnone => by cases hnone
    have hthen := K.hoisted_taken (K.sound_mono htrue hle) ht.1
    have helse := K.hoisted_taken (K.sound_mono hfalse hle) ht.1
    refine K.append hcondition.before (K.append hvar (K.branch hcondition.value hthen ?_))
    exact fun _ hsome => Option.some.inj hsome ▸ helse

end Lazy

end Invariant.Kept

end Lowering

end ScriptCompiler
