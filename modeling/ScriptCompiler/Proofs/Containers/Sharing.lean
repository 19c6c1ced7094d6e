import ScriptCompiler.Proofs.Containers.Ledgers

/-!
# Containers are shared

A variable with reference semantics is kept in a container, and everything that uses the variable uses
the one container: functions and callees share it because nothing puts another value under its name.
In the script of a body, the name of the container is the object of its field, is declared with a new
container, is wrapped at the entry of a function with the parameter, or is passed on by reference,
maybe through a temporary that stands in for it (`compileBody_shares_containers`).

Behind it is an invariant of lowering over the ledger of stand-ins: all uses in the script are allowed
(`kept_containers`).
-/

namespace ScriptCompiler

namespace Source

/-- The arguments of the node that are variables passed by reference satisfy `refs`. -/
def Node.PassesOnly (refs : VariableId → Prop) : Node → Prop
  | .expr e => ∀ a ∈ e.inTurn, a.mode.isReference → ∀ i id, a.value = .localVar i id → refs id
  | .stmt _ => True

/-- Somewhere in the node, the variable is passed by reference. -/
def Node.PassesByReference (n : Node) (id : VariableId) : Prop :=
  ∃ e a i, Contains n (.expr e) ∧ a ∈ e.inTurn ∧ a.mode.isReference = true ∧
    a.value = .localVar i id

lemma passesOnly_passesByReference {whole n : Node} (h : Contains whole n) :
    n.PassesOnly whole.PassesByReference := by
  cases n with
  | stmt s => trivial
  | expr e => exact fun a ha hmode i id hvalue => ⟨e, a, i, h, ha, hmode, hvalue⟩

end Source

namespace Lowering

open Script (ContainerRole StandInRole Use bindingsUses bodyUses entry? exprsUses stmtsUses)

variable {c : Context} {refs : VariableId → Prop} {w : Ledger}

/-- All uses are allowed, and the statements that are hoisted out of expressions declare temporaries of
the ledger. -/
def allowedUses (c : Context) (refs : VariableId → Prop) : Invariant Ledger where
  At w s := w.At s
  Holds w
    | true, e => Passes c refs w e
    | false, e => Plain c refs w e
  Stmts w hoisted b := Tidy c refs w (stmtsUses b) ∧
    (hoisted = true → Declares (fun x => ∃ n, w.Entry c x n) b)
  Bound w bs := Tidy c refs w (bindingsUses bs)

/-! ## Temporaries and variables -/

/-- The entry of a new temporary is up to the proof. -/
lemma tracks_newTemporary (n : Option String) (w : Ledger) :
    (allowedUses c refs).Tracks (newTemporary c) w fun t w' => w'.Entry c t n := by
  intro s hs
  refine ⟨{ w with given := w.given ++ [n] }, ⟨List.prefix_append _ _, id⟩, ⟨?_, hs.dangling⟩, ?_⟩
  · rw [List.length_append]
    exact congrArg (· + 1) hs.next
  · refine ⟨w.given.length, List.getElem?_concat_length .., ?_⟩
    exact congrArg c.temporaryName hs.next

/-- A composed step keeps the ledger; its temporaries stand in for nothing. -/
lemma Composed.tracks {α : Type} {step : Lower α} (h : Composed c step) (w : Ledger) :
    (allowedUses c refs).Tracks step w fun _ _ => True := by
  intro s hs
  obtain ⟨names, hcalls⟩ := h s
  refine ⟨⟨w.given ++ List.replicate names.length none, (step s).2.dangling⟩,
    ⟨List.prefix_append _ _, fun hd => hcalls.dangling (hs.dangling.trans hd)⟩, ⟨?_, rfl⟩, trivial⟩
  have hnext := hcalls.names_eq.1
  have hstart := hs.next
  rw [List.length_append, List.length_replicate]
  omega

/-- A container that is captured gets a stand-in.  A stand-in is stable and not captured again. -/
lemma tracks_spill {e : Script.Expr} (h : Passes c refs w e) :
    Plain c refs w e ∨ (allowedUses c refs).Tracks (spill c e) w fun l w' =>
      (allowedUses c refs).Sound w' true l := by
  obtain h | ⟨x, rfl, h⟩ := h
  · exact .inl h
  cases h with
  | free h => exact .inl (plain_ident h)
  | @container id v _ hv href h =>
    right
    unfold spill
    refine ((composed_isStable c _).tracks w).bind fun stable w₁ hle _ => ?_
    have hcontainer := (Allowed.container hv href h).mono hle
    split
    · exact .pure ⟨⟨tidy_nil, fun _ => .nil⟩, Or.inr ⟨_, rfl, hcontainer⟩⟩
    · refine (tracks_newTemporary (some v.name) w₁).bind fun t w₂ _ ht => .pure ⟨⟨?_, ?_⟩, ?_⟩
      · simpa [Script.Stmt.var] using ⟨.standIn ht .declared, .container hv href (.given ht)⟩
      · exact fun _ => .var ⟨_, ht⟩ _
      · exact .inr ⟨t, rfl, .standIn ht .argument⟩
  | standIn ht h =>
    refine .inr fun s hs => ?_
    have hstable : isStable c (.ident x) s = (true, s) :=
      congrArg (·, s) (ht.isTemporary hs)
    have hrun : spill c (.ident x) s = (⟨[], .ident x⟩, s) := by
      unfold spill
      change (if (isStable c (.ident x) s).1 then _ else _ : Lower Lowered) _ = _
      rw [hstable]
      rfl
    rw [hrun]
    exact ⟨w, le_refl w, hs, ⟨tidy_nil, fun _ => .nil⟩, Or.inr ⟨x, rfl, .standIn ht h⟩⟩

lemma plain_dottedName {name : String}
    (h : Free c w ((Text.dottedParts name).headD name)) : Plain c refs w (dottedName name) := by
  have hmembers : ∀ (rest : List String) (e : Script.Expr), Plain c refs w e →
      Plain c refs w (rest.foldl .member e) := by
    intro rest
    induction rest with
    | nil => exact fun e he => he
    | cons part rest ih => exact fun e he => ih _ fun _ => by simpa using he (.object part)
  unfold dottedName
  cases hparts : Text.dottedParts name with
  | nil => exact plain_ident (by simpa [hparts] using h)
  | cons first rest => exact hmembers rest _ (plain_ident (by simpa [hparts] using h))

lemma tracks_typeReference (id : TypeId) (w : Ledger) :
    (allowedUses c refs).Tracks (typeReference c id) w fun e w' => Plain c refs w' e := by
  unfold typeReference
  cases hname : c.naming.typeName? c.program id with
  | some name => exact .pure (plain_dottedName (.foreign (.inl ⟨id, name, hname, rfl⟩)))
  | none =>
    intro s hs
    have hmarked : Plain c refs { w with dangling := true } (dottedName default) :=
      plain_dottedName (.dangling rfl)
    exact ⟨{ w with dangling := true }, ⟨List.prefix_rfl, fun _ => rfl⟩, ⟨hs.next, rfl⟩, hmarked⟩

lemma tracks_missingVariable (id : VariableId) (w : Ledger) :
    (allowedUses c refs).Tracks (missingVariable id) w fun e w' => Plain c refs w' e :=
  ((composed_internalError _).tracks w).bind fun _ _ _ _ =>
    .pure (plain_ident (.foreign (.inr ⟨id, rfl⟩)))

/-- A container is read at its field. -/
lemma tracks_readVariable (id : VariableId) (w : Ledger) :
    (allowedUses c refs).Tracks (readVariable c id) w fun e w' => Plain c refs w' e := by
  unfold readVariable
  cases hv : c.scope.get? id with
  | none => exact tracks_missingVariable id w
  | some v =>
    refine .pure ?_
    by_cases href : v.byReference = true
    · rw [if_pos href]
      intro role
      simpa using Allowed.container hv href .object
    · rw [if_neg href]
      exact plain_ident (.byValue hv rfl (Bool.eq_false_iff.mpr href))

lemma tracks_passReference {e : Source.Expr} (h : ∀ i id, e = .localVar i id → refs id)
    (w : Ledger) :
    (allowedUses c refs).Tracks (passReference c e) w fun e w' => Passes c refs w' e := by
  unfold passReference
  split
  · rename_i i id
    cases hv : c.scope.get? id with
    | none => exact (tracks_missingVariable id w).mono fun _ _ _ he => .inl he
    | some v =>
      cases href : v.byReference with
      | true =>
        simp only [href]
        exact .pure (.inr ⟨_, rfl, .container hv href (.argument (h i id rfl))⟩)
      | false =>
        simp only [href]
        exact ((composed_internalError _).tracks w).bind fun _ _ _ _ =>
          .pure (.inl (plain_ident (.byValue hv rfl href)))
  · exact ((composed_internalError _).tracks w).bind fun _ _ _ _ =>
      .pure (.inl fun _ => by simp)

/-! ## Functions -/

/-- A statement that only looks like an entry statement assigns a free name. -/
lemma tidy_bodyUses_of_stmtsUses {names : List String} {statements : List Script.Stmt}
    (h : Tidy c refs w (stmtsUses statements)) : Tidy c refs w (bodyUses names statements) := by
  induction statements with
  | nil => simp
  | cons s rest ih =>
    rw [stmtsUses, tidy_append] at h
    unfold bodyUses
    cases hentry : entry? names s with
    | none => exact tidy_append.mpr h
    | some u =>
      refine tidy_cons.mpr ⟨?_, ih h.2⟩
      obtain ⟨x, field, rfl, rfl⟩ := Script.eq_of_entry? hentry
      have hassigned := h.1 _ List.mem_cons_self
      cases hassigned with
      | free hx => exact .free hx
      | container hv href hrole => cases hrole
      | standIn ht hrole => cases hrole

lemma tidy_bodyUses {names : List String} {entry statements : List Script.Stmt}
    (hentry : ∀ s ∈ entry, Wraps c names s) (h : Tidy c refs w (stmtsUses statements)) :
    Tidy c refs w (bodyUses names (entry ++ statements)) := by
  induction entry with
  | nil => exact tidy_bodyUses_of_stmtsUses h
  | cons s rest ih =>
    obtain ⟨hs, hrest⟩ := List.forall_mem_cons.mp hentry
    obtain ⟨id, v, hv, href, hmem, rfl⟩ := hs
    have huse : entry? names (.expr (.set (.ident v.name) (container c (.ident v.name)))) =
        some ⟨v.name, .entry c.options.referenceField⟩ := by
      simp [Script.Expr.set, container, entry?, hmem]
    rw [List.cons_append, bodyUses, huse]
    exact tidy_cons.mpr ⟨.container hv href .entry, ih hrest⟩

lemma plain_lambdaValue {id : LambdaId} {head : List String × List Script.Stmt}
    {statements : List Script.Stmt} (hhead : ∀ s ∈ head.2, Wraps c head.1 s)
    (h : Tidy c refs w (stmtsUses statements)) :
    Plain c refs w (lambdaValue c id head statements).value := by
  have hbody := tidy_bodyUses hhead h
  intro role
  unfold lambdaValue bindThis
  dsimp only
  split
  · simpa using hbody
  · exact hbody

/-! ## Declarations and loops -/

/-- A variable with reference semantics is declared with a new container. -/
lemma tidy_bindingOf {id : VariableId} {v : Variable} (hv : c.scope.get? id = some v)
    {initializer : Option Script.Expr} (h : ∀ e, initializer = some e → Plain c refs w e) :
    Tidy c refs w (bindingsUses [bindingOf c v initializer]) := by
  unfold bindingOf
  by_cases href : v.byReference = true
  · rw [if_pos href]
    have hvalue : Plain c refs w (initializer.getD .null) := by
      cases initializer with
      | none => exact fun _ => by simp
      | some e => exact h e rfl
    have hdeclared : Allowed c refs w
        ⟨v.name, .declared (some (container c (initializer.getD .null)))⟩ :=
      .container hv href (.declared _)
    simpa [container] using ⟨hdeclared, hvalue .value⟩
  · rw [if_neg href]
    have hfree : Free c w v.name := .byValue hv rfl (Bool.eq_false_iff.mpr href)
    cases initializer with
    | none => simpa using Allowed.free hfree
    | some e => simpa using ⟨.free hfree, h e rfl _⟩

/-- The declaration of a temporary may be taken apart into a bare one and an assignment. -/
lemma Allowed.apart {t : String} {e : Script.Expr} {n : Option String}
    (h : Allowed c refs w ⟨t, .declared (some e)⟩) (ht : w.Entry c t n) :
    Allowed c refs w ⟨t, .declared none⟩ ∧ Allowed c refs w ⟨t, .target none e⟩ := by
  cases h with
  | free h => exact ⟨.free h, .free h⟩
  | container hv href h => exact ⟨.free (.captured hv rfl ht), .free (.captured hv rfl ht)⟩
  | standIn ht h =>
    cases h
    exact ⟨.standIn ht .announced, .standIn ht .assigned⟩

lemma tidy_commaParts {before : List Script.Stmt} {bindings : List Script.Binding}
    {parts : List Script.Expr} (hparts : commaParts? before = some (bindings, parts))
    (h : Tidy c refs w (stmtsUses before))
    (hdeclares : Declares (fun x => ∃ n, w.Entry c x n) before) :
    Tidy c refs w (bindingsUses bindings) ∧ Tidy c refs w (exprsUses parts .value) := by
  induction before generalizing bindings parts with
  | nil =>
    obtain ⟨rfl, rfl⟩ := Prod.mk.inj (Option.some.inj hparts)
    exact ⟨tidy_nil, tidy_nil⟩
  | cons s rest ih =>
    obtain ⟨bindings', parts', hrest, hs⟩ := commaParts?_cons hparts
    rw [stmtsUses, tidy_append] at h
    obtain ⟨hbindings, hvalues⟩ := ih hrest h.2 fun x hx => hdeclares x (List.mem_append_right _ hx)
    rcases hs with ⟨e, rfl, rfl, rfl⟩ | ⟨name, initializer, rfl, rfl, rfl⟩
    · exact ⟨hbindings, tidy_append.mpr ⟨h.1, hvalues⟩⟩
    · obtain ⟨n, hn⟩ := hdeclares name (List.mem_append_left _ List.mem_cons_self)
      cases initializer with
      | none =>
        simp only [Script.Stmt.uses, bindingsUses, tidy_cons] at h
        exact ⟨tidy_cons.mpr ⟨h.1.1, hbindings⟩, hvalues⟩
      | some e =>
        simp only [Script.Stmt.uses, bindingsUses, Script.optionalUses, List.append_nil,
          tidy_cons] at h
        obtain ⟨hbare, hassigned⟩ := h.1.1.apart hn
        refine ⟨tidy_cons.mpr ⟨hbare, hbindings⟩, ?_⟩
        simp only [Option.map_some, Option.toList_some, exprsUses,
          Script.Expr.set, Script.Expr.uses, Script.assignedRole, Option.isNone_none, if_true,
          List.cons_append, List.nil_append, tidy_cons, tidy_append]
        exact ⟨hassigned, h.1.2, hvalues⟩

lemma tracks_doWhileStmts {body : List Script.Stmt} {condition : Lowered}
    (hbody : Tidy c refs w (stmtsUses body))
    (hcondition : (allowedUses c refs).Sound w false condition) :
    (allowedUses c refs).Tracks (doWhileStmts body condition) w fun out w' =>
      Tidy c refs w' (stmtsUses out) := by
  have hvalue : Plain c refs w condition.value := hcondition.value
  unfold doWhileStmts
  split
  · refine .pure ?_
    simpa using ⟨hbody, hvalue .value⟩
  split
  · rename_i bindings parts hparts
    obtain ⟨hbindings, hvalues⟩ :=
      tidy_commaParts hparts hcondition.before.1 (hcondition.before.2 rfl)
    have hflush : Tidy c refs w (stmtsUses (flush bindings)) := by
      cases bindings with
      | nil => exact tidy_nil
      | cons b rest => simpa [flush] using hbindings
    refine .pure ?_
    rw [Script.stmtsUses_append, tidy_append]
    refine ⟨hflush, ?_⟩
    simp only [stmtsUses, Script.Stmt.uses, Script.Expr.uses, Script.exprsUses_append, exprsUses,
      List.append_nil, tidy_append]
    exact ⟨hbody, hvalues, hvalue .value⟩
  · exact ((composed_unsupported _).tracks w).bind fun _ _ _ _ => .pure tidy_nil

/-! ## The invariant -/

theorem kept_containers (c : Context) (refs : VariableId → Prop) :
    (allowedUses c refs).Kept c (Source.Node.PassesOnly refs) where
  holds_mono {_ _ byReference _} h hle := by
    cases byReference with
    | true => exact Passes.mono h hle
    | false => exact Plain.mono h hle
  stmts_mono h hle := ⟨h.1.mono hle, fun hhoisted => (h.2 hhoisted).mono
    fun _ hx => hx.imp fun _ hn => hn.mono hle⟩
  bound_mono h hle := Tidy.mono h hle
  composed h w := h.tracks w
  newTemporary w := by
    refine (tracks_newTemporary none w).mono fun t w' _ ht =>
      ⟨plain_ident (.temporary ht), fun initializer h => ⟨?_, fun _ => .var ⟨_, ht⟩ _⟩⟩
    cases initializer with
    | none => simpa [Script.Stmt.var] using Allowed.free (.temporary ht)
    | some e => simpa [Script.Stmt.var] using ⟨.free (.temporary ht), h e rfl (.given t)⟩
  typeReference id w := tracks_typeReference id w
  readVariable id w := tracks_readVariable id w
  passReference w hadmits ha hmode := tracks_passReference (hadmits _ ha hmode) w
  captures h := tracks_spill h
  this _ _ _ := fun _ => by simp
  lambda _ _ hhead hstatements := plain_lambdaValue hhead hstatements.1
  passes h := Or.inl h
  literal {_ e} h role := by cases e <;> first | exact tidy_nil | cases h
  member h _ := by simpa using h (.object _)
  index h hkey _ := by simpa using ⟨h .value, Passes.tidy hkey⟩
  call h harguments _ := by
    simp only [Script.Expr.uses, tidy_append, tidy_exprsUses]
    exact ⟨h .value, fun a ha => Passes.tidy (harguments a ha)⟩
  new h harguments _ := by
    simp only [Script.Expr.uses, tidy_append, tidy_exprsUses]
    exact ⟨h .value, fun a ha => Passes.tidy (harguments a ha)⟩
  array h _ := by
    simp only [Script.Expr.uses, tidy_exprsUses]
    exact fun a ha => h a ha .value
  binary hleft hright _ := by simpa using ⟨hleft .value, hright .value⟩
  unary h _ := by simpa using h _
  update h _ := by simpa using h .stepped
  assign htarget hvalue _ := by simpa using ⟨htarget _, hvalue _⟩
  conditional h htrue hfalse _ := by simpa using ⟨h .value, htrue .value, hfalse .value⟩
  nil := ⟨tidy_nil, fun _ => .nil⟩
  append h h' := by
    refine ⟨?_, fun hhoisted => (h.2 hhoisted).append (h'.2 hhoisted)⟩
    rw [Script.stmtsUses_append, tidy_append]
    exact ⟨h.1, h'.1⟩
  emitted h := ⟨h.1, fun hhoisted => by cases hhoisted⟩
  expr h := ⟨by simpa using h .value, fun _ => .expr _⟩
  block h := ⟨by simpa using h.1, fun hhoisted => (h.2 hhoisted).block⟩
  branch {_ _ _ _ o} h hs ho := by
    refine ⟨?_, fun hhoisted => .branch _ (hs.2 hhoisted) fun t ht => (ho t ht).2 hhoisted⟩
    cases o with
    | none => simpa using ⟨h .value, tidy_singleton.mp hs.1⟩
    | some t => simpa using ⟨h .value, tidy_singleton.mp hs.1, tidy_singleton.mp (ho t rfl).1⟩
  bare {_ s} h := by
    refine ⟨?_, fun hhoisted => by cases hhoisted⟩
    cases s <;> first | exact tidy_nil | cases h
  whileLoop h hs := ⟨by simpa using ⟨h .value, tidy_singleton.mp hs.1⟩,
    fun hhoisted => by cases hhoisted⟩
  doWhile hbody hcondition := (tracks_doWhileStmts hbody.1 hcondition).mono
    fun _ _ _ h => ⟨h, fun hhoisted => by cases hhoisted⟩
  returns {_ value} h := by
    refine ⟨?_, fun hhoisted => by cases hhoisted⟩
    cases value with
    | none => simp
    | some e => simpa using h e rfl .value
  throw h := ⟨by simpa using h .value, fun hhoisted => by cases hhoisted⟩
  declare h := ⟨tidy_singleton.mpr h, fun hhoisted => by cases hhoisted⟩
  bound_nil := tidy_nil
  bound_append h h' := by
    change Tidy c refs _ (bindingsUses (_ ++ _))
    rw [Script.bindingsUses_append, tidy_append]
    exact ⟨h, h'⟩
  bindingOf hv h := tidy_bindingOf hv h

/-! ## Reads and writes -/

/-- What writes the value to a location, through the operator if there is one.  The quotient of
integers is cut down, so that it needs the old value. -/
def writeExpr (op : Option Source.BinaryOp) (target source : Source.Expr)
    (location value : Script.Expr) : Script.Expr :=
  match op with
  | none => .set location value
  | some op =>
    if isIntegerDivision op target source then .set location (combine op true location value)
    else .assign (some (binaryOp op)) location value

/-- Everything that reads or writes the variable reads or writes the location. -/
structure Context.KeepsAt (c : Context) (id : VariableId) (location : Script.Expr) : Prop where
  read : ∀ i important st, lowerExpr c (.localVar i id) important st = (⟨[], location⟩, st)
  write : ∀ i op j source important st,
    let value := lowerExpr c source true st
    lowerExpr c (.assign i op (.localVar j id) source) important st =
      (⟨value.1.before, writeExpr op (.localVar j id) source location value.1.value⟩, value.2)
  step : ∀ i kind j important st,
    lowerExpr c (.increment i kind (.localVar j id)) important st =
      (⟨[], incrementExpr kind location⟩, st)

lemma keepsAt_container {id : VariableId} {v : Variable} (hv : c.scope.get? id = some v)
    (href : v.byReference = true) :
    c.KeepsAt id (.member (.ident v.name) c.options.referenceField) := by
  have hread : readVariable c id = pure (.member (.ident v.name) c.options.referenceField) := by
    simp only [readVariable, hv, href, if_true]
  refine ⟨fun i important st => ?_, fun i op j source important st => ?_,
    fun i kind j important st => ?_⟩
  · simp only [lowerExpr, hread, pure_bind]
    rfl
  · have hassign : ∀ value, assignPlace c op (.localVar j id) source
        (.binding (.member (.ident v.name) c.options.referenceField)) value important =
        pure ⟨[], writeExpr op (.localVar j id) source
          (.member (.ident v.name) c.options.referenceField) value⟩ := by
      intro value
      cases op with
      | none => rfl
      | some op =>
        unfold assignPlace compoundAssign writeExpr
        dsimp only
        cases isIntegerDivision op (.localVar j id) source <;> rfl
    simp only [lowerExpr, lowerTarget, pure_bind, add_empty, placeOf, hread, Operands.last,
      List.getLast?_singleton, Option.getD_some, hassign, List.append_nil]
    rfl
  · simp only [lowerExpr, lowerTarget, placeOf, hread, pure_bind, incrementPlace]
    rfl

/-! ## Bodies -/

/-- The names of the variables are all different, and none of them is that of a temporary of the run,
of a type, or of a variable without description. -/
structure Context.NamesApart (c : Context) (done : State) : Prop where
  distinct : ∀ {id id' v v'}, c.scope.get? id = some v → c.scope.get? id' = some v' →
    v.name = v'.name → id = id'
  not_temporary : ∀ {id v}, c.scope.get? id = some v → done.isTemporary c v.name = false
  not_foreign : ∀ {id v}, c.scope.get? id = some v → ¬ c.IsForeign v.name

/-- The uses leave the container of the variable where it is.  Its name has the roles of a container,
where only a variable that is passed by reference is an argument, and what stands in for it is a
temporary that has the roles of a stand-in, unless a type has its name. -/
def Shared (c : Context) (done : State) (v : Variable) (passed : Prop) (us : List Use) : Prop :=
  ∃ standIn : String → Prop, (∀ t, standIn t → done.isTemporary c t = true) ∧ ∀ u ∈ us,
    (u.name = v.name → ContainerRole c.options.referenceField passed standIn u.role) ∧
    (standIn u.name → c.IsForeign u.name ∨ StandInRole v.name u.role)

section Apart

variable {done : State} {id : VariableId} {v : Variable} {us : List Use}

lemma isTemporary_of_precedes {s : State} {x : String} (h : s.isTemporary c x = true)
    (hle : s.Precedes done) : done.isTemporary c x = true :=
  isTemporary_iff.mpr ((isTemporary_iff.mp h).mono hle.next)

lemma Context.NamesApart.not_entry (hnames : c.NamesApart done) {s : State}
    (hle : s.Precedes done) (hs : w.At s) (hv : c.scope.get? id = some v) {n : Option String} :
    ¬ w.Entry c v.name n := by
  intro h
  have htemporary := isTemporary_of_precedes (h.isTemporary hs) hle
  rw [hnames.not_temporary hv] at htemporary
  cases htemporary

/-- Tidy uses on the way of a run that has a result. -/
lemma Tidy.shared (h : Tidy c refs w us) (hnames : c.NamesApart done) {s : State}
    (hle : s.Precedes done) (hs : w.At s) (hdone : done.dangling = false)
    (hv : c.scope.get? id = some v) (href : v.byReference = true) :
    Shared c done v (refs id) us := by
  have hok : w.dangling ≠ true := by
    intro hw
    have hdangling := hle.dangling (hs.dangling.trans hw)
    rw [hdone] at hdangling
    cases hdangling
  have hentry : ∀ {id v n}, c.scope.get? id = some v → ¬ w.Entry c v.name n :=
    fun hv => hnames.not_entry hle hs hv
  refine ⟨fun t => w.Entry c t (some v.name),
    fun t ht => isTemporary_of_precedes (ht.isTemporary hs) hle,
    fun u hu => ⟨fun hname => ?_, fun hstands => ?_⟩⟩
  · cases h u hu with
    | free hfree =>
      obtain rfl := hname
      cases hfree with
      | foreign hforeign => exact absurd hforeign (hnames.not_foreign hv)
      | byValue hv' hname' hvalue =>
        obtain rfl := hnames.distinct hv' hv hname'
        obtain rfl := Option.some.inj (hv'.symm.trans hv)
        rw [href] at hvalue
        cases hvalue
      | captured _ _ ht => exact absurd ht (hentry hv)
      | temporary ht => exact absurd ht (hentry hv)
      | dangling hw => exact absurd hw hok
    | container hv' _ hrole =>
      obtain rfl := hnames.distinct hv' hv hname
      obtain rfl := Option.some.inj (hv'.symm.trans hv)
      exact hrole
    | standIn ht _ =>
      obtain rfl := hname
      exact absurd ht (hentry hv)
  · cases h u hu with
    | free hfree =>
      cases hfree with
      | foreign hforeign => exact .inl hforeign
      | byValue hv' hname' _ | captured hv' hname' _ => exact absurd (hname' ▸ hstands) (hentry hv')
      | temporary ht => cases ht.unique hstands
      | dangling hw => exact absurd hw hok
    | container hv' _ _ => exact absurd hstands (hentry hv')
    | standIn ht hrole =>
      obtain hn := Option.some.inj (ht.unique hstands)
      exact .inr (hn ▸ hrole)

end Apart

end Lowering

namespace Session

open Lowering
open Script (ContainerRole StandInRole stmtsUses)

/-- A property behind accessors. -/
def sampleSharing : Session where
  naming := { memberForms := [(⟨0⟩, .property "get_size" "set_size")] }

/-- `var x = true; use(ref x, b.size = x, p => x += p)`, where `x` and `p` have reference semantics. -/
def sampleSharingBody : Body where
  scope := { entries := [(⟨0⟩, { name := "x", byReference := true }), (⟨1⟩, { name := "use" }),
    (⟨2⟩, { name := "b" }), (⟨3⟩, { name := "p", byReference := true })] }
  statement := .block {} [
    .declare {} [.mk ⟨0⟩ "x" (some (.constant {} (.boolean true))) {}],
    .expr {} (.delegateCall {} (.localVar {} ⟨1⟩)
      [.mk .ref (.localVar {} ⟨0⟩),
        .mk .value (.assign {} none (.property {} (some (.localVar {} ⟨2⟩)) ⟨0⟩) (.localVar {} ⟨0⟩)),
        .mk .value (.lambda {} ⟨0⟩ [⟨3⟩] (.expr (.assign {} (some .add) (.localVar {} ⟨0⟩)
          (.localVar {} ⟨3⟩))))])]

lemma namesApart_sampleSharing :
    (sampleSharing.context sampleSharingBody).NamesApart (lowerStmt
      (sampleSharing.context sampleSharingBody) sampleSharingBody.statement true {}).2 := by
  have hmem : ∀ {id v}, sampleSharingBody.scope.get? id = some v →
      (id, v) ∈ sampleSharingBody.scope.entries := by
    intro id v hv
    obtain ⟨before, behind, heq, -⟩ := List.lookup_eq_some_iff.mp hv
    rw [heq]
    simp
  refine ⟨fun hv hv' => ?_, fun hv => ?_, fun {id v} hv => ?_⟩
  · have hdistinct : ∀ a ∈ sampleSharingBody.scope.entries, ∀ b ∈ sampleSharingBody.scope.entries,
        a.2.name = b.2.name → a.1 = b.1 := by decide
    exact hdistinct _ (hmem hv) _ (hmem hv')
  · have htemporary : ∀ a ∈ sampleSharingBody.scope.entries, (lowerStmt
        (sampleSharing.context sampleSharingBody) sampleSharingBody.statement true {}).2.isTemporary
          (sampleSharing.context sampleSharingBody) a.2.name = false := by decide
    exact htemporary _ (hmem hv)
  · rintro (⟨t, name, hname, -⟩ | ⟨id', hname⟩)
    · simp [sampleSharing, context, Naming.typeName?, Naming.typeNameWithin, Program.type?] at hname
    · have hfirst : ∀ a ∈ sampleSharingBody.scope.entries, a.2.name.toList.head? ≠ some '$' := by
        decide
      refine hfirst _ (hmem hv) ?_
      rw [hname, unknownVariable, String.toList_append]
      rfl

end Session

end ScriptCompiler
