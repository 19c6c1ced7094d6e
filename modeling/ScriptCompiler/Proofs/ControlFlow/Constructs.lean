import ScriptCompiler.Proofs.Hoisting.Expression

/-!
# Statements around lowered expressions

`Emits` reasons about a step of lowering that may report: it never takes a message back, and what is
known of its result is known under the condition that it added none.

The other lemmas say what becomes of a construct once its parts are lowered.  The statements that an
expression needs run ahead of the statement that uses its value.  For the condition of a loop that
means: before every test, also before the one that follows a `continue`.
-/

namespace ScriptCompiler.Lowering

open Machine

/-! ## Steps that may report -/

/-- The step takes no message back, and if it adds none, its result has the property `Q`. -/
def Emits {α : Type} (step : Lower α) (Q : α → Prop) : Prop :=
  ∀ st : State, ∃ reported,
    (step st).2.reporter.messages = st.reporter.messages ++ reported ∧
      (reported = [] → Q (step st).1)

section

variable {α β : Type} {R : α → Prop} {Q : β → Prop} {step : Lower α}

/-- A result that is there already. -/
lemma Emits.pure {a : α} (h : R a) : Emits (pure a) R := fun _ =>
  ⟨[], (List.append_nil _).symm, fun _ => h⟩

/-- One step after another.  What is known of the first result is a condition on the second. -/
lemma Emits.bind {next : α → Lower β} (h : Emits step R)
    (hnext : ∀ a, Emits (next a) fun b => R a → Q b) : Emits (step >>= next) Q := by
  intro st
  obtain ⟨reported, hmessages, hR⟩ := h st
  obtain ⟨reported', hmessages', hQ⟩ := hnext (step st).1 (step st).2
  refine ⟨reported ++ reported', ?_, fun hnone => ?_⟩
  · change (next (step st).1 (step st).2).2.reporter.messages = _
    rw [hmessages', hmessages, List.append_assoc]
  · obtain ⟨hfirst, hsecond⟩ := List.append_eq_nil_iff.mp hnone
    exact hQ hsecond (hR hfirst)

/-- A weaker property of the result. -/
lemma Emits.mono {R' : α → Prop} (h : Emits step R) (hR : ∀ a, R a → R' a) : Emits step R' := by
  intro st
  obtain ⟨reported, hmessages, hQ⟩ := h st
  exact ⟨reported, hmessages, fun hnone => hR _ (hQ hnone)⟩

/-- A step that reports nothing. -/
lemma Emits.of_yields (h : ∀ n, Yields step n fun a _ => R a) : Emits step R := by
  intro st
  obtain ⟨a, n', hstep, hR⟩ := h st.next st rfl
  rw [hstep]
  exact ⟨[], (List.append_nil _).symm, fun _ => hR⟩

/-- Setting the location reports nothing. -/
lemma emits_setLocation (location : Location) : Emits (setLocation location) fun _ => True :=
  fun _ => ⟨[], (List.append_nil _).symm, fun _ => trivial⟩

lemma Emits.located {location : Location} (h : Emits step R) :
    Emits (do setLocation location; step) R :=
  (emits_setLocation location).bind fun _ => h.mono fun _ hR _ => hR

/-- A report is a message. -/
lemma emits_report (m : Message) (arguments : List String) (R : Unit → Prop) :
    Emits (report m arguments) R := fun st =>
  ⟨[st.reporter.entry m arguments], rfl, fun h => by cases h⟩

end

variable {V H : Type*}

/-- The lowered value does what the expression does. -/
def Realizes (P : Primitives V H) (c : Context) (important : Bool) (L : Lowered)
    (e : Source.Expr) : Prop :=
  ∃ A n n', Lowers P c A important n n' L (e.eval P c)

/-- The statements run as `b` does. -/
abbrev Runs (P : Primitives V H) (c : Context) (body : List Script.Stmt)
    (b : Behavior (Memory VariableId V H) V) : Prop :=
  ∀ g : String → V, Behavior.Bisimilar (Matches c g) b (Script.behaviorAll P body)

section

variable {P : Primitives V H} {c : Context} {other : Condition} {important : Bool} {L : Lowered}
  {e : Source.Expr} {g : String → V} {s : Memory VariableId V H} {t : Memory String V H}
  {body : List Script.Stmt} {b : Behavior (Memory VariableId V H) V}

/-- Expressions of the fragment report nothing. -/
lemma emits_lowerExpr (hc : Grounded P c)
    (hother : other.IsSequential c)
    (he : e.Within c other important) :
    Emits (lowerExpr c e important) fun L => Realizes P c important L e :=
  Emits.of_yields fun n => (yields_lowerExpr hc hother e important n he).mono fun _ _ hL =>
    ⟨_, _, _, hL.lowers⟩

/-- Statements that use the value of an expression run behind those that the expression needs. -/
lemma Realizes.meets (h : Realizes P c important L e) (hm : Matches c g s t)
    (hbody : ∀ t₁, Matches c g (e.eval P c s).2 (L.value.eval P t₁).2 →
      (important = true → (L.value.eval P t₁).1 = (e.eval P c s).1) →
      Behavior.Meets (Matches c g) b (Script.behaviorAll P body) s t₁) :
    Behavior.Meets (Matches c g) b (Script.behaviorAll P (L.before ++ body)) s t := by
  obtain ⟨A, n, n', hlowers⟩ := h
  obtain ⟨t₁, hrun, -, hm₁, hv⟩ := hlowers.run hm
  exact (hbody t₁ hm₁ hv).congr (fun _ _ => Iff.rfl) fun o t' => hrun.behaviorAll_append o t'

/-- A statement that ends with the value of an expression. -/
lemma Realizes.runs_ends (h : Realizes P c important L e) {last : Script.Stmt}
    {f : V → Outcome V}
    (hlast : last.behavior P = .ends fun t => (f (L.value.eval P t).1, (L.value.eval P t).2))
    (hf : important = false → ∀ v v', f v = f v') :
    Runs P c (L.before ++ [last])
      (.ends fun s => (f (e.eval P c s).1, (e.eval P c s).2)) := by
  intro g s t hm
  refine h.meets hm fun t₁ hm₁ hv => ?_
  have hvalue : f (L.value.eval P t₁).1 = f (e.eval P c s).1 := by
    cases important with
    | true => exact congrArg f (hv rfl)
    | false => exact hf rfl _ _
  have hmeets : Behavior.Meets (Matches c g)
      (Behavior.ends fun s => (f (e.eval P c s).1, (e.eval P c s).2))
      (Behavior.ends fun t => (f (L.value.eval P t).1, (L.value.eval P t).2)) s t₁ :=
    Behavior.meets_ends hvalue hm₁
  rw [← hlast] at hmeets
  exact hmeets.congr (fun _ _ => Iff.rfl) (Script.behaviorAll_singleton last t₁)

/-- Statements that complete meet a single step. -/
lemma meets_step {t₁ : Memory String V H} (h : Script.Completes P body t t₁)
    {f : Memory VariableId V H → Memory VariableId V H} (hm : Matches c g (f s) t₁) :
    Behavior.Meets (Matches c g) (Behavior.step f) (Script.behaviorAll P body) s t where
  forth := by
    rintro _ _ ⟨rfl, rfl⟩
    exact ⟨t₁, (h _ _).mpr ⟨rfl, rfl⟩, hm⟩
  back := by
    intro o t' hrun
    obtain ⟨rfl, rfl⟩ := (h o t').mp hrun
    exact ⟨f s, ⟨rfl, rfl⟩, hm⟩

/-- A block runs as its statements. -/
lemma Runs.block (h : Runs P c body b) : Runs P c [.block body] b := fun _ _ _ hm =>
  (h _ hm).congr (fun _ _ => Iff.rfl) (Script.behaviorAll_singleton (.block body) _)

/-- Statements one after the other. -/
lemma Runs.append {rest : List Script.Stmt} {b' : Behavior (Memory VariableId V H) V}
    (h : Runs P c body b) (h' : Runs P c rest b') : Runs P c (body ++ rest) (.seq b b') :=
  fun g _ _ hm => ((h g).seq (h' g) hm).congr (fun _ _ => Iff.rfl)
    (Script.behaviorAll_append body rest _)

/-! ## Branches -/

/-- A branch tests the value of its condition. -/
lemma Realizes.runs_branch (h : Realizes P c true L e) {b' : Behavior (Memory VariableId V H) V}
    {otherwise : Option Script.Stmt} (hthen : Runs P c body b)
    (helse : ∀ g, Behavior.Bisimilar (Matches c g) b' (Script.elseBehavior P otherwise)) :
    Runs P c (L.before ++ [.branch L.value (.block body) otherwise])
      (.choose (e.test P c) b b') := by
  intro g s t hm
  refine h.meets hm fun t₁ hm₁ hv => ?_
  have htest : (L.value.test P t₁).1 = (e.test P c s).1 := congrArg P.truthy (hv rfl)
  have hmeets := Behavior.meets_choose htest hm₁ (hthen g) (helse g)
  refine hmeets.congr (fun _ _ => Iff.rfl) fun o t' => ?_
  rw [Script.behaviorAll_singleton, Script.behavior_branch]
  rfl

/-! ## Loops -/

/-- Behind a guard, the statements run if the test holds, and the loop is left if it fails. -/
lemma behaviorAll_guard (value : Script.Expr) (body : List Script.Stmt) (t : Memory String V H)
    (o : Outcome V) (t' : Memory String V H) :
    Script.behaviorAll P ([.branch (.unary .not value) .break none] ++ body) t o t' ↔
      if (value.test P t).1 then Script.behaviorAll P body (value.test P t).2 o t'
      else o = .break ∧ t' = (value.test P t).2 := by
  have hnot : (Script.Expr.unary .not value).test P t =
      (!(value.test P t).1, (value.test P t).2) := by
    simp [Script.Expr.test, Script.Expr.eval, Script.UnaryOp.isUpdate, Memory.act, P.unary_not,
      P.truthy_ofBool]
  have hguard : ∀ o t', (Script.Stmt.branch (.unary .not value) .break none).behavior P t o t' ↔
      o = (if (value.test P t).1 then .normal else .break) ∧ t' = (value.test P t).2 := by
    intro o t'
    cases hcase : (value.test P t).1 with
    | true =>
      simp [Script.Stmt.behavior, Behavior.choose, hnot, hcase, Behavior.step, Behavior.ends]
    | false => simp [Script.Stmt.behavior, Behavior.choose, hnot, hcase, Behavior.ends]
  rw [Script.behaviorAll_append]
  simp only [Behavior.seq, Script.behaviorAll_singleton, hguard]
  cases (value.test P t).1 with
  | true =>
    constructor
    · rintro (⟨_, ⟨-, rfl⟩, hrun⟩ | ⟨ho, rfl, -⟩)
      · exact hrun
      · exact absurd rfl ho
    · exact fun hrun => Or.inl ⟨_, ⟨rfl, rfl⟩, hrun⟩
  | false =>
    constructor
    · rintro (⟨_, ⟨⟨⟩, -⟩, -⟩ | ⟨-, hguard⟩)
      exact hguard
    · rintro ⟨rfl, rfl⟩
      exact .inr ⟨(fun h => by cases h), rfl, rfl⟩

/-- A round of a loop whose condition needs statements: they run, then comes the test. -/
lemma whileRound_guarded {before : List Script.Stmt} {value : Script.Expr}
    {t t₁ : Memory String V H}
    (hrun : Script.Completes P before t t₁) (r : Option (Outcome V)) (t' : Memory String V H) :
    Behavior.whileRound ((Script.Expr.boolean true).test P)
        ((Script.Stmt.block (before ++ [.branch (.unary .not value) .break none] ++ body)).behavior
          P) t r t' ↔
      Behavior.whileRound (value.test P) ((Script.Stmt.block body).behavior P) t₁ r t' := by
  have hbody : ∀ o t', (Script.Stmt.block
      (before ++ [.branch (.unary .not value) .break none] ++ body)).behavior P t o t' ↔
      if (value.test P t₁).1 then Script.behaviorAll P body (value.test P t₁).2 o t'
      else o = .break ∧ t' = (value.test P t₁).2 := by
    intro o t'
    rw [← behaviorAll_guard, ← hrun.behaviorAll_append o t', List.append_assoc]
    rfl
  have htrue : (Script.Expr.boolean true).test P t = (true, t) := by
    simp [Script.Expr.test, Script.Expr.eval, P.truthy_ofBool]
  simp only [Behavior.whileRound, htrue, if_true, hbody]
  cases (value.test P t₁).1 with
  | true => simp [Script.Stmt.behavior]
  | false =>
    simp only [Bool.false_eq_true, if_false]
    constructor
    · rintro ⟨o, ⟨rfl, rfl⟩, rfl⟩
      exact ⟨rfl, rfl⟩
    · rintro ⟨rfl, rfl⟩
      exact ⟨.break, ⟨rfl, rfl⟩, rfl⟩

/-- A loop that tests in front of its body. -/
lemma Realizes.runs_whileStmt (h : Realizes P c true L e) (hbody : Runs P c body b) :
    Runs P c [whileStmt L body] (Behavior.Loop (Behavior.whileRound (e.test P c) b)) := by
  intro g s t hm
  obtain ⟨A, n, n', hlowers⟩ := h
  have hround : Behavior.Matching (Matches c g) (Behavior.whileRound (e.test P c) b)
      (if L.before.isEmpty then
        Behavior.whileRound (L.value.test P) ((Script.Stmt.block body).behavior P)
      else Behavior.whileRound ((Script.Expr.boolean true).test P)
        ((Script.Stmt.block
          (L.before ++ [.branch (.unary .not L.value) .break none] ++ body)).behavior P)) := by
    intro s t hm
    obtain ⟨t₁, hrun, -, hm₁, hv⟩ := hlowers.run hm
    have htest : (L.value.test P t₁).1 = (e.test P c s).1 := congrArg P.truthy (hv rfl)
    have hmeets := Behavior.meets_whileRound htest hm₁ (hbody g)
    split
    · rename_i hempty
      rw [List.isEmpty_iff.mp hempty] at hrun
      obtain rfl := (Script.completes_nil t).unique hrun
      exact hmeets
    · exact hmeets.congr (fun _ _ => Iff.rfl) (whileRound_guarded hrun)
  refine (hround.loop hm).congr (fun _ _ => Iff.rfl) fun o t' => ?_
  rw [Script.behaviorAll_singleton, whileStmt]
  split <;> rfl

/-- Statements and the parts of the comma expression that is made of them have the same effects,
and the declarations that go ahead of it have none. -/
lemma completes_commaParts : ∀ {body : List Script.Stmt} {declared : List Script.Binding}
    {parts : List Script.Expr}, commaParts? body = some (declared, parts) →
    (∀ t : Memory String V H, Script.Completes P body t (Script.evalAll P parts t).2) ∧
      ∀ t : Memory String V H, Script.declareAll P declared t = t
  | [], declared, parts, h => by
    obtain ⟨rfl, rfl⟩ : declared = [] ∧ parts = [] := by simpa [commaParts?, eq_comm] using h
    exact ⟨Script.completes_nil, fun _ => rfl⟩
  | .expr e :: rest, declared, parts, h => by
    obtain ⟨⟨declared', parts'⟩, hrest, hparts⟩ := Option.bind_eq_some_iff.mp h
    obtain ⟨rfl, rfl⟩ : declared = declared' ∧ parts = e :: parts' := by
      simpa [eq_comm] using hparts
    obtain ⟨hcompletes, hdeclared⟩ := completes_commaParts hrest
    exact ⟨fun t => (Script.completes_expr e t).append (hcompletes _), hdeclared⟩
  | .declare [.mk x none] :: rest, declared, parts, h => by
    obtain ⟨⟨declared', parts'⟩, hrest, hparts⟩ := Option.bind_eq_some_iff.mp h
    obtain ⟨rfl, rfl⟩ : declared = .mk x none :: declared' ∧ parts = parts' := by
      simpa [eq_comm] using hparts
    obtain ⟨hcompletes, hdeclared⟩ := completes_commaParts hrest
    exact ⟨fun t => (Script.completes_var_none x t).append (hcompletes t), hdeclared⟩
  | .declare [.mk x (some e)] :: rest, declared, parts, h => by
    obtain ⟨⟨declared', parts'⟩, hrest, hparts⟩ := Option.bind_eq_some_iff.mp h
    obtain ⟨rfl, rfl⟩ : declared = .mk x none :: declared' ∧
        parts = .set (.ident x) e :: parts' := by
      simpa [eq_comm] using hparts
    obtain ⟨hcompletes, hdeclared⟩ := completes_commaParts hrest
    exact ⟨fun t => (Script.completes_var x e t).append (hcompletes _), hdeclared⟩

/-- Declared names are bound in turn. -/
lemma completes_flush (batch : List Script.Binding) (t : Memory String V H) :
    Script.Completes P (flush batch) t (Script.declareAll P batch t) := by
  cases batch with
  | nil => exact Script.completes_nil t
  | cons binding batch => exact Script.completes_singleton fun _ _ => Iff.rfl

/-- A comma expression tests its last part behind the effects of the others. -/
lemma test_comma (parts : List Script.Expr) (value : Script.Expr) (t : Memory String V H) :
    (Script.Expr.comma (parts ++ [value])).test P t =
      value.test P (Script.evalAll P parts t).2 := by
  simp [Script.Expr.test, Script.Expr.eval, Script.evalAll_append, Script.evalAll]

/-- A loop that tests behind its body, with any expression for the test that does what the
statements of the condition and its value do. -/
lemma Realizes.runs_doWhile (h : Realizes P c true L e) (hbody : Runs P c body b)
    (test : Script.Expr)
    (htest : ∀ {t t₁ : Memory String V H}, Script.Completes P L.before t t₁ →
      test.test P t = L.value.test P t₁) :
    Runs P c [.doWhile (.block body) test]
      (Behavior.Loop (Behavior.doWhileRound b (e.test P c))) := by
  intro g s t hm
  obtain ⟨A, n, n', hlowers⟩ := h
  have hround : Behavior.Matching (Matches c g) (Behavior.doWhileRound b (e.test P c))
      (Behavior.doWhileRound ((Script.Stmt.block body).behavior P) (test.test P)) := by
    refine Behavior.Matching.doWhileRound (hbody g) fun {s t} hm => ?_
    obtain ⟨t₁, hrun, -, hm₁, hv⟩ := hlowers.run hm
    rw [htest hrun]
    exact ⟨congrArg P.truthy (hv rfl), hm₁⟩
  exact (hround.loop hm).congr (fun _ _ => Iff.rfl) (Script.behaviorAll_singleton _ t)

/-- A loop that tests behind its body is lowered or reported. -/
lemma emits_doWhileStmts (L : Lowered) (body : List Script.Stmt) :
    Emits (doWhileStmts body L) fun result => Realizes P c true L e → Runs P c body b →
      Runs P c result (Behavior.Loop (Behavior.doWhileRound b (e.test P c))) := by
  simp only [doWhileStmts]
  split
  · -- the condition is tested as it is
    rename_i hempty
    refine .pure fun hL hbody => hL.runs_doWhile hbody L.value fun {t t₁} hrun => ?_
    rw [List.isEmpty_iff.mp hempty] at hrun
    rw [(Script.completes_nil t).unique hrun]
  · split
    · rename_i declared parts hparts
      obtain ⟨hcompletes, hdeclared⟩ := completes_commaParts (P := P) hparts
      refine .pure fun hL hbody g s t hm => ?_
      have hloop := hL.runs_doWhile hbody (.comma (parts ++ [L.value])) fun {t t₁} hrun => by
        rw [test_comma, (hcompletes t).unique hrun]
      have hflush := completes_flush (P := P) declared t
      rw [hdeclared t] at hflush
      exact (hloop g hm).congr (fun _ _ => Iff.rfl) fun o t' => hflush.behaviorAll_append o t'
    · exact (emits_report _ _ fun _ => False).bind fun _ => .pure False.elim

/-! ## Declarations -/

/-- Binding a variable to a lowered value declares it. -/
lemma Realizes.declares (hc : Grounded P c) {i : VariableId} {v : Variable}
    (hv : c.scope.get? i = some v) (h : Realizes P c true L e) (name : String) (span : Span)
    (hm : Matches c g s t) :
    ∃ t₁, Script.Completes P L.before t t₁ ∧
      Matches c g (Source.declareOne P c (.mk i name (some e) span) s)
        (Script.declareAll P [bindingOf c v (some L.value)] t₁) := by
  obtain ⟨A, n, n', hlowers⟩ := h
  obtain ⟨t₁, hrun, -, hm₁, hvalue⟩ := hlowers.run hm
  have hx : c.Names i v.name := ⟨v, hv, rfl⟩
  refine ⟨t₁, hrun, ?_⟩
  cases href : v.byReference with
  | true =>
    obtain ⟨hcell, hm₂⟩ := hm₁.act (P.newCell (e.eval P c s).1)
    simp only [Source.declareOne, hv, Option.any_some, href, if_true, Option.elim_some, bindingOf,
      Option.getD_some, Script.declareAll, container, Script.Expr.eval, Script.evalProperties,
      hvalue rfl, Primitives.newObject, hc.containerField, hcell]
    exact hm₂.set hc hx _
  | false =>
    simp only [Source.declareOne, hv, Option.any_some, href, Bool.false_eq_true, if_false,
      Option.elim_some, bindingOf, Script.declareAll, hvalue rfl]
    exact hm₁.set hc hx _

/-- A variable without initial value gets an empty container if it needs one. -/
lemma matches_declareOne (hc : Grounded P c) {i : VariableId} {v : Variable}
    (hv : c.scope.get? i = some v) (name : String) (span : Span) (hm : Matches c g s t) :
    Matches c g (Source.declareOne P c (.mk i name none span) s)
      (Script.declareAll P [bindingOf c v none] t) := by
  have hx : c.Names i v.name := ⟨v, hv, rfl⟩
  cases href : v.byReference with
  | true =>
    obtain ⟨hcell, hm₂⟩ := hm.act (P.newCell P.null)
    simp only [Source.declareOne, hv, Option.any_some, href, if_true, Option.elim_none, bindingOf,
      Option.getD_none, Script.declareAll, container, Script.Expr.eval, Script.evalProperties,
      Primitives.newObject, hc.containerField, hcell]
    exact hm₂.set hc hx _
  | false =>
    simpa only [Source.declareOne, hv, Option.any_some, href, Bool.false_eq_true, if_false,
      Option.elim_none, bindingOf, Script.declareAll] using hm

/-- Bindings in turn, one part of the list after the other. -/
lemma declareAll_append (batch rest : List Script.Binding) (t : Memory String V H) :
    Script.declareAll P (batch ++ rest) t =
      Script.declareAll P rest (Script.declareAll P batch t) := by
  induction batch generalizing t with
  | nil => rfl
  | cons binding batch ih =>
    rcases binding with ⟨x, _ | e⟩
    · exact ih t
    · exact ih _

/-- Lowering an initializer that may be missing. -/
lemma emits_lowerInitializer (hc : Grounded P c)
    (hother : other.IsSequential c)
    {initializer : Option Source.Expr} (h : ∀ e, initializer = some e → e.Within c other true) :
    Emits (lowerInitializer c initializer) fun value =>
      Option.Rel (Realizes P c true) value initializer := by
  cases initializer with
  | none =>
    simp only [lowerInitializer]
    exact .pure .none
  | some e =>
    simp only [lowerInitializer]
    exact (emits_lowerExpr hc hother (h e rfl)).bind fun L => .pure .some

/-- Binding a variable to its lowered initial value, if it has one, declares the variable. -/
lemma declares_initializer (hc : Grounded P c) {i : VariableId} {v : Variable}
    (hv : c.scope.get? i = some v) {initializer : Option Source.Expr} {value : Option Lowered}
    (h : Option.Rel (Realizes P c true) value initializer) (name : String) (span : Span)
    (hm : Matches c g s t) :
    ∃ t₁, Script.Completes P (value.elim [] (·.before)) t t₁ ∧
      Matches c g (Source.declareOne P c (.mk i name initializer span) s)
        (Script.declareAll P [bindingOf c v (value.map (·.value))] t₁) := by
  cases h with
  | none => exact ⟨t, Script.completes_nil t, matches_declareOne hc hv name span hm⟩
  | some h => exact h.declares hc hv name span hm

/-- Declarators are lowered in turn.

The bindings of `batch` are still to be declared.  What comes out meets the rest of the source from
where their declaration will lead. -/
lemma emits_lowerDeclarators (hc : Grounded P c)
    (hother : other.IsSequential c) (declarators : List Source.Declarator)
    (hwithin : ∀ i name e span, Source.Declarator.mk i name (some e) span ∈ declarators →
      e.Within c other true) (batch : List Script.Binding) :
    Emits (lowerDeclarators c declarators batch) fun result =>
      ∀ {g : String → V} {s : Memory VariableId V H} {t : Memory String V H},
        Matches c g s (Script.declareAll P batch t) →
        Behavior.Meets (Matches c g) (Behavior.step (Source.declareAll P c declarators))
          (Script.behaviorAll P result) s t := by
  induction declarators generalizing batch with
  | nil =>
    simp only [lowerDeclarators]
    refine .pure fun {g s t} hm => ?_
    exact meets_step (completes_flush batch t) hm
  | cons d rest ih =>
    obtain ⟨i, name, initializer, span⟩ := d
    have hrest := fun batch => ih (fun i' name' e' span' hmem =>
      hwithin i' name' e' span' (List.mem_cons_of_mem _ hmem)) batch
    simp only [lowerDeclarators]
    refine (emits_setLocation _).bind fun _ => ?_
    cases hv : c.scope.get? i with
    | none =>
      exact (emits_report _ _ fun _ => False).bind fun _ => (hrest batch).mono
        fun _ _ hfalse => hfalse.elim
    | some v =>
      refine (emits_lowerInitializer hc hother fun e he => ?_).bind fun value => ?_
      · exact hwithin i name e span (by simp [he])
      · cases hbefore : value.elim [] (·.before) with
        | nil =>
          refine (hrest _).mono fun result hresult hvalue _ g s t hm => ?_
          obtain ⟨t₁, hrun, hm₁⟩ := declares_initializer hc hv hvalue name span hm
          rw [hbefore] at hrun
          rw [← (Script.completes_nil _).unique hrun, ← declareAll_append] at hm₁
          exact (hresult hm₁).congr (fun _ _ => Iff.rfl) fun _ _ => Iff.rfl
        | cons first others =>
          refine (hrest _).bind fun result => .pure fun hresult hvalue _ {g s t} hm => ?_
          obtain ⟨t₁, hrun, hm₁⟩ := declares_initializer hc hv hvalue name span hm
          rw [hbefore] at hrun
          exact (hresult hm₁).congr (fun _ _ => Iff.rfl)
            fun o t' => ((completes_flush batch t).append hrun).behaviorAll_append o t'

end

end ScriptCompiler.Lowering
