import ScriptCompiler.Proofs.Diagnostics.Silence
import ScriptCompiler.Proofs.Traversal.Steps

/-!
# What lowering finds

Statements, declarators and the conditions of loops that test behind their bodies are anchors: the
messages of a construct point at the innermost anchor around it.  `items` lists, in the order of
lowering, what a construct says itself and which constructs it enters, and `Raises` collects the
findings of a list of items, each at the anchor that is current there.

The current location is one cell of the state.  Statements set it on their way down and leave it
anywhere; expressions leave it where they found it, because a function restores it behind its body.
`Adds` keeps track of both: it says what a step adds to the messages, from which location to which
location it leads, and when it adds nothing.  The walk over the tree puts it together for
expressions and statements (`adds_lowering`).
-/

namespace ScriptCompiler.Lowering

open Source (Node Argument Contains)

/-! ## What constructs say -/

/-- What lowering enters on its way through a body. -/
inductive Construct where
  | expr (e : Source.Expr)
  | stmt (t : Source.Stmt)
  | declarator (d : Source.Declarator)
  /-- The condition of a loop that tests behind its body. -/
  | condition (e : Source.Expr)

/-- The span of a construct that is an anchor. -/
def Construct.anchor : Construct → Option Span
  | .expr _ => none
  | .stmt t => some t.span
  | .declarator d => some d.span
  | .condition e => some e.span

/-- A part of what happens in a construct. -/
inductive Item where
  | tells (m : Message) (argument : String)
  | mayTell (m : Message) (argument : String)
  | enters (construct : Construct)

/-- Defects that are reported in turn. -/
def defects (texts : List String) : List Item :=
  texts.map (.tells .internalError)

variable (c : Context)

/-- An operand is entered, unless it is passed by reference. -/
def operandItems (a : Argument) : List Item :=
  if a.mode.isReference then defects (c.referenceDefects a.value) else [.enters (.expr a.value)]

/-- What happens in an expression. -/
def exprItems : Source.Expr → List Item
  | .conditional _ condition whenTrue whenFalse =>
    [.enters (.expr condition), .enters (.expr whenTrue), .enters (.expr whenFalse)]
  | .lambda _ id parameters (.expr value) =>
    defects (c.lambdaDefects id parameters) ++ [.enters (.expr value)]
  | .lambda _ id parameters (.block body) =>
    defects (c.lambdaDefects id parameters) ++ body.map fun t => .enters (.stmt t)
  | e => defects (targetDefects e) ++ e.inTurn.flatMap (operandItems c) ++ defects (exprDefects c e)

/-- What happens in a statement. -/
def stmtItems : Source.Stmt → List Item
  | .declare _ declarators => declarators.map fun d => .enters (.declarator d)
  | .doWhile _ body condition => [.enters (.stmt body), .enters (.condition condition)]
  | .throw _ none => [.tells .unsupportedConstruct "rethrow"]
  | .unsupported _ construct => [.tells .unsupportedConstruct construct.name]
  | t => t.expressions.map (fun e => .enters (.expr e)) ++
      t.statements.map fun u => .enters (.stmt u)

/-- What happens in a construct, in the order of lowering. -/
def items : Construct → List Item
  | .expr e => exprItems c e
  | .stmt t => stmtItems t
  | .declarator (.mk id name initializer _) =>
    if (c.scope.get? id).isSome then initializer.toList.map fun e => .enters (.expr e)
    else [.tells .internalError ("Variable declarator for '" ++ name ++ "' has no variable descriptor.")]
  | .condition e => [.enters (.expr e),
      .mayTell .unsupportedConstruct "do-while condition with conditional side effects"]

/-! ## Findings -/

/-- A message and the anchor that it points at. -/
structure Finding where
  anchor : Span
  message : Message
  argument : String

/-- The finding as a reporter records it, in the file of the body. -/
def Finding.reported (promoteWarnings : Bool) (f : Finding) : Reported :=
  Reporter.entry { promoteWarnings, location := c.location f.anchor } f.message [f.argument]

/-- The findings of items under an anchor.  What a construct says points at the construct if it is an
anchor, and at the anchor around it otherwise. -/
inductive Raises : Span → List Item → List Finding → Prop where
  | nil (a : Span) : Raises a [] []
  | tells {a : Span} {m : Message} {argument : String} {rest : List Item} {fs : List Finding} :
    Raises a rest fs → Raises a (.tells m argument :: rest) (⟨a, m, argument⟩ :: fs)
  | told {a : Span} {m : Message} {argument : String} {rest : List Item} {fs : List Finding} :
    Raises a rest fs → Raises a (.mayTell m argument :: rest) (⟨a, m, argument⟩ :: fs)
  | untold {a : Span} {m : Message} {argument : String} {rest : List Item} {fs : List Finding} :
    Raises a rest fs → Raises a (.mayTell m argument :: rest) fs
  | enters {a : Span} {construct : Construct} {rest : List Item} {inner fs : List Finding} :
    Raises (construct.anchor.getD a) (items c construct) inner → Raises a rest fs →
      Raises a (.enters construct :: rest) (inner ++ fs)

variable {c} {α β : Type} {a : Span} {K : Prop} {P Q R : Location → Prop} {xs ys : List Item}
  {p p' : State → Prop}

/-- Items in turn raise their findings in turn. -/
lemma Raises.append {fs gs : List Finding} (h : Raises c a xs fs) (h' : Raises c a ys gs) :
    Raises c a (xs ++ ys) (fs ++ gs) := by
  induction h with
  | nil => exact h'
  | tells _ ih => exact .tells (ih h')
  | told _ ih => exact .told (ih h')
  | untold _ ih => exact .untold (ih h')
  | enters hinner _ _ ih =>
    rw [List.append_assoc]
    exact .enters hinner (ih h')

/-! ## Steps that keep track of the location -/

/-- The current location is that of the anchor. -/
def At (c : Context) (a : Span) (l : Location) : Prop :=
  l = c.location a

/-- Nothing is known about the current location. -/
def Anywhere (_ : Location) : Prop :=
  True

/-- From a location with `P`, the step adds the findings of the items and leads to a location
with `Q`.  If `K` holds, it adds none if and only if `p` holds of the state that it starts from, and
it asks for nothing outside the program. -/
structure Adds (c : Context) (a : Span) (K : Prop) (P Q : Location → Prop) (step : Lower α)
    (items : List Item) (p : State → Prop) : Prop where
  composed : Composed c step
  run (s : State) : P s.reporter.location → ∃ fs, Raises c a items fs ∧
    (step s).2.reporter.messages =
      s.reporter.messages ++ fs.map (Finding.reported c s.reporter.promoteWarnings) ∧
    (step s).2.reporter.promoteWarnings = s.reporter.promoteWarnings ∧
    Q (step s).2.reporter.location ∧ (K → (fs = [] ↔ p s) ∧ (step s).2.dangling = s.dangling)

namespace Adds

variable {step : Lower α} {next : α → Lower β} {q : α → State → Prop}

/-- The condition in other words. -/
lemma of_iff (h : Adds c a K P Q step xs p) (hiff : ∀ s, p s ↔ p' s) :
    Adds c a K P Q step xs p' := by
  rwa [← funext fun s => propext (hiff s)]

/-- A silent step stays where it is. -/
lemma silent (h : Silent c K step) : Adds c a K P P step [] fun _ => True := by
  refine ⟨h.composed, fun s hs => ?_⟩
  rw [h.reporter, Reporter.internalErrors_nil]
  exact ⟨[], .nil a, (List.append_nil _).symm, rfl, hs, fun hK =>
    ⟨iff_of_true rfl trivial, h.dangling s hK⟩⟩

/-- Nothing is added without a step. -/
lemma pure (x : α) : Adds c a K P P (Pure.pure x : Lower α) [] fun _ => True :=
  .silent (.pure x)

/-- Steps in turn add nothing if neither of them does. -/
lemma bind (h : Adds c a K P R step xs p) (hnext : ∀ x, Adds c a K R Q (next x) ys (q x)) :
    Adds c a K P Q (step >>= next) (xs ++ ys) fun s => p s ∧ q (step s).1 (step s).2 := by
  refine ⟨h.composed.bind fun x => (hnext x).composed, fun s hs => ?_⟩
  obtain ⟨fs, hfs, hmessages, hpromote, hlocation, hsilent⟩ := h.run s hs
  obtain ⟨gs, hgs, hmessages', hpromote', hlocation', hsilent'⟩ :=
    (hnext (step s).1).run _ hlocation
  refine ⟨fs ++ gs, hfs.append hgs, ?_, hpromote'.trans hpromote, hlocation', fun hK => ?_⟩
  · rw [List.map_append, ← List.append_assoc, ← hmessages, ← hpromote]
    exact hmessages'
  · rw [List.append_eq_nil_iff, (hsilent hK).1, (hsilent' hK).1]
    exact ⟨Iff.rfl, (hsilent' hK).2.trans (hsilent hK).2⟩

/-- A step that is followed by a silent one. -/
lemma andThen (h : Adds c a K P Q step xs p) (hnext : ∀ x, Silent c K (next x)) :
    Adds c a K P Q (step >>= next) xs p := by
  have hboth := (h.bind fun x => .silent (hnext x)).of_iff fun s => iff_of_eq (and_true _)
  rwa [List.append_nil] at hboth

/-- A step that starts from anywhere. -/
lemma of_anywhere (h : Adds c a K Anywhere Q step xs p) : Adds c a K P Q step xs p :=
  ⟨h.composed, fun s _ => h.run s trivial⟩

/-- Where the step leads is forgotten. -/
lemma to_anywhere (h : Adds c a K P Q step xs p) : Adds c a K P Anywhere step xs p := by
  refine ⟨h.composed, fun s hs => ?_⟩
  obtain ⟨fs, hfs, hmessages, hpromote, -, hsilent⟩ := h.run s hs
  exact ⟨fs, hfs, hmessages, hpromote, trivial, hsilent⟩

/-- A step behind the location of an anchor. -/
lemma located {span : Span} (h : Adds c a K (At c span) Q step xs p) :
    Adds c a K P Anywhere (setLocation (c.location span) >>= fun _ => step) xs fun s =>
      p (setLocation (c.location span) s).2 := by
  refine ⟨(composed_setLocation _).bind fun _ => h.composed, fun s _ => ?_⟩
  exact h.to_anywhere.run (setLocation (c.location span) s).2 rfl

/-- A step that enters a construct. -/
lemma enter {construct : Construct}
    (h : Adds c (construct.anchor.getD a) K P Q step (items c construct) p) :
    Adds c a K P Q step [.enters construct] p := by
  refine ⟨h.composed, fun s hs => ?_⟩
  obtain ⟨fs, hfs, hrun⟩ := h.run s hs
  refine ⟨fs, ?_, hrun⟩
  have henters := Raises.enters hfs (.nil a)
  rwa [List.append_nil] at henters

end Adds

/-- A finding at the current anchor is what the reporter records. -/
lemma reported_eq_entry {r : Reporter} (h : At c a r.location) (m : Message) (argument : String) :
    Finding.reported c r.promoteWarnings ⟨a, m, argument⟩ = r.entry m [argument] := by
  rw [Finding.reported, Reporter.entry, Reporter.entry, h]

/-- A construct that is not supported is found at the current anchor. -/
lemma adds_unsupported (name : String) :
    Adds c a K (At c a) (At c a) (report .unsupportedConstruct [name])
      [.tells .unsupportedConstruct name] fun _ => False := by
  refine ⟨composed_unsupported name, fun s hs => ?_⟩
  refine ⟨[⟨a, .unsupportedConstruct, name⟩], .tells (.nil a), ?_, rfl, hs, fun _ => ⟨?_, rfl⟩⟩
  · rw [List.map_singleton, reported_eq_entry hs]
    rfl
  · simp

/-- Defects are found at the current anchor. -/
lemma Tells.adds {step : Lower α} {texts : List String} {p : Prop} (h : Tells c K step texts)
    (hp : K → (texts = [] ↔ p)) :
    Adds c a K (At c a) (At c a) step (defects texts) fun _ => p := by
  refine ⟨h.composed, fun s hs => ?_⟩
  refine ⟨texts.map fun text => ⟨a, .internalError, text⟩, ?_, ?_, ?_, ?_, fun hK => ?_⟩
  · clear h hp
    induction texts with
    | nil => exact .nil a
    | cons text rest ih => exact .tells ih
  · rw [h.reporter]
    simp only [Reporter.internalErrors, List.map_map, Function.comp_def, reported_eq_entry hs]
  · rw [h.reporter]
    rfl
  · rw [h.reporter]
    exact hs
  · rw [List.map_eq_nil_iff]
    exact ⟨hp hK, h.dangling s hK⟩

/-! ## Expressions -/

/-- Lowering the expression adds what it says, and nothing if its visit is clean. -/
def AddsExpr (c : Context) (K : Prop) (e : Source.Expr) : Prop :=
  ∀ a important, Adds c a K (At c a) (At c a) (lowerExpr c e important) (exprItems c e) fun s =>
    Clean c (.expr e important, s)

/-- Lowering the statement adds what it says, and nothing if its visit is clean. -/
def AddsStmt (c : Context) (K : Prop) (t : Source.Stmt) : Prop :=
  ∀ spliced, Adds c t.span K Anywhere Anywhere (lowerStmt c t spliced) (stmtItems t) fun s =>
    Clean c (.stmt t spliced, s)

/-- The expression is entered at the current anchor. -/
lemma AddsExpr.enter {e : Source.Expr} (h : AddsExpr c K e) (a : Span) (important : Bool) :
    Adds c a K (At c a) (At c a) (lowerExpr c e important) [.enters (.expr e)] fun s =>
      Clean c (.expr e important, s) :=
  Adds.enter (h a important)

/-- The statement is entered from anywhere. -/
lemma AddsStmt.enter {t : Source.Stmt} (h : AddsStmt c K t) (a : Span) (spliced : Bool) :
    Adds c a K P Anywhere (lowerStmt c t spliced) [.enters (.stmt t)] fun s =>
      Clean c (.stmt t spliced, s) :=
  (Adds.enter (h spliced)).of_anywhere

/-- Operands are lowered in turn. -/
lemma adds_lowerArguments {arguments : List Argument} (h : ∀ x ∈ arguments, AddsExpr c K x.value)
    (operands : Operands) :
    Adds c a K (At c a) (At c a) (lowerArguments c arguments operands)
      (arguments.flatMap (operandItems c)) fun s =>
        ProperArguments c arguments ∧ ∀ v ∈ argumentVisits c arguments operands s, Clean c v := by
  induction arguments generalizing operands with
  | nil =>
    unfold lowerArguments
    exact (Adds.pure _).of_iff fun s => by simp [ProperArguments, argumentVisits]
  | cons x rest ih =>
    have hoperand : Adds c a K (At c a) (At c a) (lowerOperand c x) (operandItems c x) fun s =>
        if x.mode.isReference then c.IsContained x.value else Clean c (.expr x.value true, s) := by
      unfold lowerOperand operandItems
      split
      · rw [map_eq_pure_bind]
        exact ((tells_passReference _).adds fun _ => referenceDefects_eq_nil_iff).andThen
          fun _ => .pure _
      · exact (h x List.mem_cons_self).enter a true
    have hrest := ih fun y hy => h y (List.mem_cons_of_mem _ hy)
    rw [lowerArguments_cons, List.flatMap_cons]
    refine ((hoperand.andThen fun _ => silent_add _ _).bind hrest).of_iff fun s => ?_
    rw [argumentVisits, List.forall_mem_append]
    unfold ProperArguments
    rw [List.forall_mem_cons]
    cases x.mode.isReference with
    | true => simp [and_assoc]
    | false => simp [and_left_comm]

/-- What happens in a strict expression. -/
lemma exprItems_strict {e : Source.Expr} (h : e.isStrict = true) :
    exprItems c e = defects (targetDefects e) ++ e.inTurn.flatMap (operandItems c) ++
      defects (exprDefects c e) := by
  cases e with
  | conditional => cases h
  | lambda => cases h
  | _ => rfl

/-! ## Statements -/

/-- Statements are lowered in turn. -/
lemma adds_lowerStmts {body : List Source.Stmt} (h : ∀ t ∈ body, AddsStmt c K t) (a : Span) :
    Adds c a K P Anywhere (lowerStmts c body) (body.map fun t => .enters (.stmt t)) fun s =>
      ∀ v ∈ inSequence c (body.map (.stmt · false)) s, Clean c v := by
  refine Adds.of_anywhere ?_
  induction body with
  | nil =>
    unfold lowerStmts
    exact (Adds.pure _).of_iff fun s => iff_of_true trivial clean_inSequence_nil
  | cons t rest ih =>
    unfold lowerStmts
    have hrest := ih fun u hu => h u (List.mem_cons_of_mem _ hu)
    exact (((h t List.mem_cons_self).enter a false).bind fun _ => hrest.andThen fun _ =>
      .pure _).of_iff fun s => clean_inSequence_cons.symm

/-- A function restores the location that its body may have left. -/
lemma adds_lambda (i : Source.Info) (id : LambdaId) (parameters : List VariableId)
    (body : Source.LambdaBody) (important : Bool)
    (h : Adds c a K (At c a) Anywhere (lowerLambdaBody c body) xs p)
    (hp : ∀ s, p (lambdaHead c id parameters s).2 ↔
      ∀ w ∈ exprVisits c (.lambda i id parameters body) s, Clean c w) :
    Adds c a K (At c a) (At c a) (lowerExpr c (.lambda i id parameters body) important)
      (defects (c.lambdaDefects id parameters) ++ xs) fun s =>
        Clean c (.expr (.lambda i id parameters body) important, s) := by
  have hbody : ∀ head, Adds c a K (At c a) (At c a) (do
      let location ← currentLocation
      let statements ← lowerLambdaBody c body
      setLocation location
      return lambdaValue c id head statements) xs p := by
    refine fun head => ⟨composed_currentLocation.bind fun _ => h.composed.bind fun _ =>
      (composed_setLocation _).bind fun _ => .pure _, fun s hs => ?_⟩
    obtain ⟨fs, hfs, hmessages, hpromote, -, hsilent⟩ := h.run s hs
    exact ⟨fs, hfs, hmessages, hpromote, hs, hsilent⟩
  rw [lowerExpr_lambda]
  refine (((tells_lambdaHead id parameters).adds fun _ => lambdaDefects_eq_nil_iff).bind
    hbody).of_iff fun s => ?_
  rw [hp, clean_iff]
  refine and_congr_left fun _ => ?_
  exact ⟨fun hhead => ⟨⟨hhead, fun a ha => by cases ha⟩, trivial⟩, fun hproper => hproper.1.1⟩

/-- An initial value is lowered if there is one. -/
lemma adds_lowerInitializer {initializer : Option Source.Expr}
    (h : ∀ e ∈ initializer, AddsExpr c K e) (a : Span) :
    Adds c a K (At c a) (At c a) (lowerInitializer c initializer)
      (initializer.toList.map fun e => .enters (.expr e)) fun s =>
        ∀ v ∈ inSequence c (initializer.map (.expr · true)).toList s, Clean c v := by
  unfold lowerInitializer
  cases initializer with
  | none => exact (Adds.pure _).of_iff fun s => iff_of_true trivial clean_inSequence_nil
  | some e =>
    exact (((h e rfl).enter a true).andThen fun _ => .pure _).of_iff fun s =>
      List.forall_mem_singleton.symm

/-- A declarator is an anchor; without a description it is refused. -/
lemma adds_lowerDeclarator {d : Source.Declarator} (h : ∀ e ∈ d.initializer, AddsExpr c K e)
    (a : Span) :
    Adds c a K Anywhere Anywhere (lowerDeclarator c d) [.enters (.declarator d)] fun s =>
      c.Describes d.id ∧ ∀ v ∈ inSequence c (d.initializer.map (.expr · true)).toList
        (setLocation (c.location d.span) s).2, Clean c v := by
  obtain ⟨id, name, initializer, span⟩ := d
  rw [lowerDeclarator]
  refine .enter (Adds.located (Q := At c span) (p := fun s => c.Describes id ∧
    ∀ v ∈ inSequence c (initializer.map (.expr · true)).toList s, Clean c v) ?_)
  cases hv : c.scope.get? id with
  | none =>
    have hnot : ¬ c.Describes id := by simp [Context.Describes, hv]
    rw [items, hv]
    refine (((tells_internalError _).adds (p := False) fun _ => by simp).andThen
      fun _ => .pure _).of_iff fun s => ?_
    simp only [hnot, false_and]
  | some v =>
    have hdescribed : c.Describes id := by simp [Context.Describes, hv]
    rw [items, hv]
    exact ((adds_lowerInitializer h span).andThen fun _ => .pure _).of_iff fun s =>
      (and_iff_right hdescribed).symm

/-- Declarators are lowered in turn. -/
lemma adds_lowerDeclarators {declarators : List Source.Declarator}
    (h : ∀ e ∈ declarators.filterMap Source.Declarator.initializer, AddsExpr c K e) (a : Span)
    (batch : List Script.Binding) :
    Adds c a K P Anywhere (lowerDeclarators c declarators batch)
      (declarators.map fun d => .enters (.declarator d)) fun s =>
        (∀ d ∈ declarators, c.Describes d.id) ∧
          ∀ v ∈ declaratorVisits c declarators s, Clean c v := by
  refine Adds.of_anywhere ?_
  induction declarators generalizing batch with
  | nil =>
    unfold lowerDeclarators
    exact (Adds.pure _).of_iff fun s => by simp [declaratorVisits]
  | cons d rest ih =>
    obtain ⟨hfirst, hothers⟩ := Source.forall_initializers_cons.mp h
    have hrest := ih hothers
    rw [lowerDeclarators_cons]
    refine ((adds_lowerDeclarator hfirst a).bind (q := fun _ s =>
      (∀ d ∈ rest, c.Describes d.id) ∧ ∀ v ∈ declaratorVisits c rest s, Clean c v)
        fun found => ?_).of_iff fun s => ?_
    · split
      · exact hrest batch
      · dsimp only
        split
        · exact hrest _
        · exact (hrest _).andThen fun _ => .pure _
    · rw [List.forall_mem_cons, declaratorVisits, List.forall_mem_append]
      by_cases hd : (c.scope.get? d.id).isSome = true
      · rw [if_pos hd]
        exact and_and_and_comm
      · have hnot : ¬ c.Describes d.id := hd
        simp only [hnot, false_and]

/-- A loop that tests behind its body is refused, at the span of its condition, if the condition
cannot be one expression. -/
lemma adds_doWhileStmts (body : List Script.Stmt) (condition : Lowered) :
    Adds c a K (At c a) (At c a) (doWhileStmts body condition)
      [.mayTell .unsupportedConstruct "do-while condition with conditional side effects"] fun _ =>
        ∀ h ∈ condition.before, isCommaPart h = true := by
  have hquiet : ∀ out : List Script.Stmt, Adds c a K (At c a) (At c a) (pure out : Lower _)
      [.mayTell .unsupportedConstruct "do-while condition with conditional side effects"]
        fun _ => True := fun out => ⟨.pure out, fun s hs => ⟨[], .untold (.nil a),
          (List.append_nil _).symm, rfl, hs, fun _ => ⟨iff_of_true rfl trivial, rfl⟩⟩⟩
  have hiff := isSome_commaParts?_iff condition.before
  unfold doWhileStmts
  split
  · rename_i hempty
    rw [List.isEmpty_iff] at hempty
    exact (hquiet _).of_iff fun s => by simp [hempty]
  · cases hparts : commaParts? condition.before with
    | some parts =>
      rw [hparts] at hiff
      exact (hquiet _).of_iff fun s => iff_of_true trivial (hiff.mp rfl)
    | none =>
      rw [hparts] at hiff
      have htold : Adds c a K (At c a) (At c a) (unsupported
          "do-while condition with conditional side effects") [.mayTell .unsupportedConstruct
          "do-while condition with conditional side effects"] fun _ => False := by
        refine ⟨composed_unsupported _, fun s hs => ?_⟩
        obtain ⟨fs, hfs, hrun⟩ := (adds_unsupported (c := c) (K := K)
          "do-while condition with conditional side effects").run s hs
        cases hfs with
        | tells hrest => exact ⟨_, .told hrest, hrun⟩
      exact (htold.andThen fun _ => .pure _).of_iff fun s =>
        iff_of_false id fun hall => by cases hiff.mpr hall

/-- A statement that asks for nothing itself depends on the turns of its parts. -/
lemma Adds.stmt {step : Lower α} {t : Source.Stmt} {spliced : Bool}
    (h : Adds c a K P Q step xs p) (hp : ∀ s, p s ↔ ∀ w ∈ stmtVisits c t spliced s, Clean c w)
    (hproper : ProperStmt c t) (hcondition : ∀ s, ConditionFits c (.stmt t spliced, s)) :
    Adds c a K P Q step xs fun s => Clean c (.stmt t spliced, s) := by
  refine h.of_iff fun s => ?_
  rw [hp, clean_iff]
  exact (and_iff_right ⟨hproper, hcondition s⟩).symm

/-- An expression that asks for nothing itself depends on the turns of its parts. -/
lemma Adds.expr {step : Lower α} {e : Source.Expr} {important : Bool}
    (h : Adds c a K P Q step xs p) (hp : ∀ s, p s ↔ ∀ w ∈ exprVisits c e s, Clean c w)
    (hproper : Proper c (.expr e)) :
    Adds c a K P Q step xs fun s => Clean c (.expr e important, s) := by
  refine h.of_iff fun s => ?_
  rw [hp, clean_iff]
  exact (and_iff_right ⟨hproper, trivial⟩).symm

/-- A statement that always reports is never clean. -/
lemma Adds.refused {step : Lower α} {t : Source.Stmt} {spliced : Bool}
    (h : Adds c a K P Q step xs fun _ => False) (hproper : ¬ ProperStmt c t) :
    Adds c a K P Q step xs fun s => Clean c (.stmt t spliced, s) :=
  h.of_iff fun _ => iff_of_false id fun hclean => hproper (hclean _ .refl).1

/-- A loop that tests behind its body adds the findings of its body and then those of its
condition. -/
lemma adds_doWhile {span : Span} {body : Source.Stmt} {condition : Source.Expr}
    (hbody : AddsStmt c K body) (hcondition : AddsExpr c K condition) :
    AddsStmt c K (.doWhile span body condition) := by
  intro spliced
  have htest : ∀ statements, Adds c span K Anywhere Anywhere (do
      setLocation (c.location condition.span)
      let lowered ← lowerExpr c condition true
      doWhileStmts statements lowered) [.enters (.condition condition)] _ := fun statements =>
    .enter ((hcondition.enter condition.span true).bind (adds_doWhileStmts statements)).located
  simp only [lowerStmt]
  refine (Adds.located ((hbody.enter span true).bind htest)).of_iff fun s => ?_
  rw [clean_iff (v := (.stmt (.doWhile span body condition) spliced, s))]
  have hvisits : (∀ w ∈ stmtVisits c (.doWhile span body condition) spliced s, Clean c w) ↔ _ :=
    List.forall_mem_cons.trans (and_congr_right fun _ => List.forall_mem_singleton)
  exact ⟨fun h => ⟨⟨trivial, h.2.2⟩, hvisits.mpr ⟨h.1, h.2.1⟩⟩,
    fun h => ⟨(hvisits.mp h.2).1, (hvisits.mp h.2).2, h.1.2⟩⟩

/-- A branch adds the findings of its condition and then those of its parts. -/
lemma adds_branch {span : Span} {condition : Source.Expr} {thenBranch : Source.Stmt}
    {elseBranch : Option Source.Stmt} (hcondition : AddsExpr c K condition)
    (hthen : AddsStmt c K thenBranch) (helse : ∀ u ∈ elseBranch, AddsStmt c K u) :
    AddsStmt c K (.branch span condition thenBranch elseBranch) := by
  intro spliced
  have hother : Adds c span K Anywhere Anywhere (lowerElse c elseBranch)
      (elseBranch.toList.map fun u => .enters (.stmt u)) fun s =>
        ∀ v ∈ inSequence c (elseBranch.toList.map (.stmt · true)) s, Clean c v := by
    unfold lowerElse
    cases elseBranch with
    | none => exact (Adds.pure _).of_iff fun s => iff_of_true trivial clean_inSequence_nil
    | some u =>
      exact (((helse u rfl).enter span true).andThen fun _ => .pure _).of_iff fun s =>
        List.forall_mem_singleton.symm
  simp only [lowerStmt]
  refine .stmt (Adds.located ((hcondition.enter span true).bind fun _ =>
    (hthen.enter span true).bind fun _ => hother.andThen fun _ => .pure _)) (fun s => ?_) trivial
      fun _ => trivial
  exact (clean_inSequence_cons.trans (and_congr_right fun _ => clean_inSequence_cons)).symm

/-- A statement adds the findings of its items, given that its parts do. -/
lemma adds_lowerStmt_of_parts {t : Source.Stmt} (hexpr : ∀ e ∈ t.expressions, AddsExpr c K e)
    (hstmt : ∀ u ∈ t.statements, AddsStmt c K u) : AddsStmt c K t := by
  intro spliced
  -- a statement around one expression
  have hvalue : ∀ {e : Source.Expr} {important : Bool} {out : Lowered → List Script.Stmt},
      e ∈ t.expressions → Adds c t.span K Anywhere Anywhere (do
        setLocation (c.location t.span)
        return out (← lowerExpr c e important)) [.enters (.expr e)] fun s =>
          ∀ v ∈ [(Visit.expr e important, (setLocation (c.location t.span) s).2)], Clean c v :=
    fun he => (Adds.located (((hexpr _ he).enter t.span _).andThen fun _ => .pure _)).of_iff
      fun s => List.forall_mem_singleton.symm
  have hbody : ∀ body, body = t.statements → ∀ {P : Location → Prop},
      Adds c t.span K P Anywhere (lowerStmts c body) (body.map fun u => .enters (.stmt u)) fun s =>
        ∀ v ∈ inSequence c (body.map (.stmt · false)) s, Clean c v := by
    rintro body rfl P
    exact adds_lowerStmts hstmt t.span
  cases t with
  | comment span kind content | «break» span | «continue» span | empty span =>
    simp only [lowerStmt]
    exact .stmt (Adds.located (Adds.pure _)) (fun s => by simp [stmtVisits]) trivial fun _ => trivial
  | declare span declarators =>
    simp only [lowerStmt]
    refine (Adds.located (adds_lowerDeclarators hexpr span [])).of_iff fun s => ?_
    rw [clean_iff]
    exact and_congr_left fun _ => (and_iff_left trivial).symm
  | expr span value =>
    simp only [lowerStmt]
    exact .stmt (hvalue List.mem_cons_self) (fun _ => Iff.rfl) trivial fun _ => trivial
  | block span body =>
    simp only [lowerStmt]
    cases spliced with
    | true => exact .stmt (hbody body rfl) (fun _ => Iff.rfl) trivial fun _ => trivial
    | false =>
      exact .stmt (Adds.located ((hbody body rfl).andThen fun _ => .pure _)) (fun _ => Iff.rfl)
        trivial fun _ => trivial
  | checked span body | unchecked span body =>
    simp only [lowerStmt]
    exact .stmt (Adds.located ((hbody body rfl).andThen fun _ => .pure _)) (fun _ => Iff.rfl)
      trivial fun _ => trivial
  | «return» span value =>
    cases value with
    | none =>
      simp only [lowerStmt]
      exact .stmt (Adds.located (Adds.pure _)) (fun s => by simp [stmtVisits, inSequence]) trivial
        fun _ => trivial
    | some e =>
      simp only [lowerStmt]
      exact .stmt (hvalue List.mem_cons_self) (fun _ => Iff.rfl) trivial fun _ => trivial
  | throw span value =>
    cases value with
    | none =>
      simp only [lowerStmt]
      exact .refused (Adds.located ((adds_unsupported _).andThen fun _ => .pure _)) id
    | some e =>
      simp only [lowerStmt]
      exact .stmt (hvalue List.mem_cons_self) (fun _ => Iff.rfl) trivial fun _ => trivial
  | branch span condition thenBranch elseBranch =>
    exact adds_branch (hexpr _ List.mem_cons_self) (hstmt _ List.mem_cons_self)
      (fun u hu => hstmt u (List.mem_cons_of_mem _ (Option.mem_toList.mpr hu))) spliced
  | whileLoop span condition body =>
    simp only [lowerStmt]
    refine .stmt (Adds.located (((hexpr condition List.mem_cons_self).enter span true).bind fun _ =>
      ((hstmt body List.mem_cons_self).enter span true).andThen fun _ => .pure _)) (fun s => ?_)
        trivial fun _ => trivial
    exact (clean_inSequence_cons.trans (and_congr_right fun _ => List.forall_mem_singleton)).symm
  | doWhile span body condition =>
    exact adds_doWhile (hstmt _ List.mem_cons_self) (hexpr _ List.mem_cons_self) spliced
  | unsupported span construct =>
    simp only [lowerStmt]
    exact .refused (Adds.located ((adds_unsupported _).andThen fun _ => .pure _)) id

/-- Expressions add their findings at the anchor around them and stay there; statements are anchors
and add theirs from anywhere.  Nothing is added if and only if the visit is clean, where members are
known. -/
theorem adds_lowering (c : Context) (K : Prop) :
    (∀ e, (∀ n, Contains (.expr e) n → K → ∀ id ∈ n.members, c.Knows id) → AddsExpr c K e) ∧
      ∀ t, (∀ n, Contains (.stmt t) n → K → ∀ id ∈ n.members, c.Knows id) → AddsStmt c K t := by
  refine Source.contained_induction ?_ ?_ ?_ ?_ ?_ fun t _ hexpr hstmt =>
    adds_lowerStmt_of_parts hexpr hstmt
  · intro e hstrict hknows hoperands a important
    have hannounce : Adds c a K (At c a) (At c a) (announce e) (defects (targetDefects e)) fun _ =>
        Assignable e :=
      (tells_announce e).adds fun _ => by cases e <;> simp [targetDefects, Assignable]
    rw [lowerExpr_strict c hstrict, exprItems_strict hstrict, List.append_assoc]
    refine (hannounce.bind fun _ => (adds_lowerArguments (fun x hx => (hoperands x hx).2) {}).bind
      fun operands => (tells_complete hknows hstrict important operands).adds
        fun hK => exprDefects_eq_nil_iff hstrict (hknows hK)).of_iff fun s => ?_
    rw [clean_iff]
    change _ ↔ ((ProperExpr c e ∧ ProperArguments c e.inTurn) ∧ True) ∧
      ∀ w ∈ exprVisits c e s, Clean c w
    rw [properExpr_iff, exprVisits_strict hstrict, and_true]
    exact ⟨fun h => ⟨⟨⟨h.1, h.2.2⟩, h.2.1.1⟩, h.2.1.2⟩,
      fun h => ⟨h.1.1.1, ⟨h.1.2, h.2⟩, h.1.1.2⟩⟩
  · intro i op left right hop hleft hright a important
    have hvalues : ProperArguments c [.mk .value left, .mk .value right] := by
      simp [ProperArguments, Argument.mode, Source.ArgumentMode.isReference]
    simp only [lowerExpr, hop, if_true]
    refine .expr ((hleft.enter a true).bind fun _ => (hright.enter a true).andThen
      fun _ => silent_shortCircuit _ _ _) (fun s => ?_) ⟨trivial, hvalues⟩
    rw [exprVisits_lazy i hop]
    exact (clean_inSequence_cons.trans (and_congr_right fun _ => List.forall_mem_singleton)).symm
  · intro i condition whenTrue whenFalse hcondition htrue hfalse a important
    unfold lowerExpr
    refine .expr ((hcondition.enter a true).bind fun _ => (htrue.enter a true).bind fun _ =>
      (hfalse.enter a true).andThen fun _ => silent_choose _ _ _) (fun s => ?_)
        ⟨trivial, fun a ha => by cases ha⟩
    exact (clean_inSequence_cons.trans (and_congr_right fun _ => clean_inSequence_cons.trans
      (and_congr_right fun _ => List.forall_mem_singleton))).symm
  · intro i id parameters value _ hvalue a important
    refine adds_lambda i id parameters _ important (p := fun s =>
      Clean c (.expr value (!value.type.isVoid), s)) ?_ fun s => List.forall_mem_singleton.symm
    unfold lowerLambdaBody
    exact ((hvalue.enter a _).andThen fun _ => .pure _).to_anywhere
  · intro i id parameters body _ hbody a important
    refine adds_lambda i id parameters _ important (p := fun s =>
      ∀ v ∈ inSequence c (body.map (.stmt · false)) s, Clean c v) ?_ fun s => Iff.rfl
    unfold lowerLambdaBody
    exact adds_lowerStmts hbody a

/-! ## Steps of the walk -/

/-- Every expression is lowered step by step. -/
lemma addsExpr_false (c : Context) (e : Source.Expr) : AddsExpr c False e :=
  (adds_lowering c False).1 e fun _ _ => False.elim

/-- Every statement is lowered step by step. -/
lemma addsStmt_false (c : Context) (t : Source.Stmt) : AddsStmt c False t :=
  (adds_lowering c False).2 t fun _ _ => False.elim

lemma composed_lowerExpr (c : Context) (e : Source.Expr) (important : Bool) :
    Composed c (lowerExpr c e important) :=
  (addsExpr_false c e default important).composed

lemma composed_lowerStmt (c : Context) (s : Source.Stmt) (spliced : Bool) :
    Composed c (lowerStmt c s spliced) :=
  (addsStmt_false c s spliced).composed

lemma composed_lowerArguments (c : Context) (arguments : List Argument) (operands : Operands) :
    Composed c (lowerArguments c arguments operands) :=
  (adds_lowerArguments (a := default) (fun x _ => addsExpr_false c x.value) operands).composed

lemma composed_lowerInitializer (c : Context) (initializer : Option Source.Expr) :
    Composed c (lowerInitializer c initializer) :=
  (adds_lowerInitializer (fun e _ => addsExpr_false c e) default).composed

lemma composed_lowerDeclarator (c : Context) (d : Source.Declarator) :
    Composed c (lowerDeclarator c d) :=
  (adds_lowerDeclarator (fun e _ => addsExpr_false c e) default).composed

lemma composed_lowerDeclarators (c : Context) (declarators : List Source.Declarator)
    (batch : List Script.Binding) : Composed c (lowerDeclarators c declarators batch) :=
  (adds_lowerDeclarators (P := Anywhere) (fun e _ => addsExpr_false c e) default batch).composed

end ScriptCompiler.Lowering
