import ScriptCompiler.Proofs.Temporaries.Occurrences
import ScriptCompiler.Proofs.Traversal.Steps

/-!
# Operations and their temporaries

One temporary, that with number `k`, is followed through the operations of lowering.  A value fits
in (`Fits`) if it uses the temporary only behind its declaration.  Emitted statements and the values
that go with them satisfy `Supplies`: the temporary is declared before it is used, at most once, and
only if its number is in the range of the operation.  The lemmas say so for each operation whose
inputs fit in.
-/

namespace ScriptCompiler.Lowering

open Script (Occurrence Scan declarations stmtsOccurrences exprsOccurrences)

variable {α β : Type} {c : Context} {k : Nat} {declared declared' nested nested' range range' : Prop}
  {es : List Script.Expr}

/-! ## Results and counters -/

/-- Run from temporary `n` on, the step has a result and a next temporary for which `Q` holds. -/
def Leads (step : Lower α) (n : Nat) (Q : α → Nat → Prop) : Prop :=
  ∀ s : State, s.next = n → Q (step s).1 (step s).2.next

namespace Leads

lemma pure {a : α} {n : Nat} {Q : α → Nat → Prop} (h : Q a n) : Leads (Pure.pure a) n Q := by
  rintro s rfl
  exact h

lemma bind {step : Lower α} {next : α → Lower β} {n : Nat} {R : α → Nat → Prop}
    {Q : β → Nat → Prop} (h : Leads step n R) (hnext : ∀ a m, R a m → Leads (next a) m Q) :
    Leads (step >>= next) n Q :=
  fun s hs => hnext _ _ (h s hs) _ rfl

lemma mono {step : Lower α} {n : Nat} {R Q : α → Nat → Prop} (h : Leads step n R)
    (hQ : ∀ a m, R a m → Q a m) : Leads step n Q :=
  fun s hs => hQ _ _ (h s hs)

/-- A new temporary takes the next number. -/
lemma newTemporary (c : Context) (n : Nat) :
    Leads (newTemporary c) n fun name m => name = c.temporaryName n ∧ m = n + 1 := by
  rintro s rfl
  exact ⟨rfl, rfl⟩

end Leads

/-- A composed step leads on. -/
lemma Composed.leads {step : Lower α} (h : Composed c step) (n : Nat) :
    Leads step n fun _ m => n ≤ m := by
  rintro s rfl
  exact h.next_le s

/-- A composed step leads on, with what is known of its result. -/
lemma Composed.leads_of {step : Lower α} {Q : α → Prop} (h : Composed c step)
    (hresult : Gives step Q) (n : Nat) : Leads step n fun a m => n ≤ m ∧ Q a :=
  fun s hs => ⟨h.leads n s hs, hresult s⟩

/-! ## Values -/

/-- Every occurrence fits in behind a declaration of the temporary, if there is one. -/
def Fits (c : Context) (k : Nat) (declared nested : Prop) (os : List Occurrence) : Prop :=
  ∀ o ∈ os, o.Ready (c.temporaryName k) declared nested

/-- More may be declared or nested. -/
lemma Fits.mono {os : List Occurrence} (h : Fits c k declared nested os)
    (hdeclared : declared → declared') (hnested : nested → nested') : Fits c k declared' nested' os :=
  fun o ho => (h o ho).mono hdeclared hnested

lemma fits_nil : Fits c k declared nested [] :=
  fun _ ho => by cases ho

/-- Two lists fit when both do. -/
@[simp]
lemma fits_append {a b : List Occurrence} :
    Fits c k declared nested (a ++ b) ↔ Fits c k declared nested a ∧ Fits c k declared nested b :=
  List.forall_mem_append

/-- A name fits if it is declared, when it is the temporary. -/
lemma fits_name {x : String} (h : x = c.temporaryName k → declared) :
    Fits c k declared nested [.name x] := by
  intro o ho
  obtain rfl := List.mem_singleton.mp ho
  exact h

/-- Expressions fit when each does. -/
lemma fits_exprs :
    Fits c k declared nested (exprsOccurrences es) ↔
      ∀ e ∈ es, Fits c k declared nested e.occurrences := by
  unfold Fits
  simp only [Script.mem_exprsOccurrences]
  constructor
  · exact fun h e he o ho => h o ⟨e, he, ho⟩
  · rintro h o ⟨e, he, ho⟩
    exact h e he o ho

lemma fits_null : Fits c k declared nested Script.Expr.null.occurrences := by
  simp only [Script.Expr.occurrences]
  exact fits_nil

/-- So does the first of them. -/
lemma Fits.headD (h : Fits c k declared nested (exprsOccurrences es)) :
    Fits c k declared nested (es.headD .null).occurrences := by
  cases es with
  | nil => exact fits_null
  | cons e rest => exact fits_exprs.mp h e List.mem_cons_self

lemma Fits.tail (h : Fits c k declared nested (exprsOccurrences es)) :
    Fits c k declared nested (exprsOccurrences es.tail) :=
  fits_exprs.mpr fun e he => fits_exprs.mp h e (List.mem_of_mem_tail he)

lemma Fits.dropLast (h : Fits c k declared nested (exprsOccurrences es)) :
    Fits c k declared nested (exprsOccurrences es.dropLast) :=
  fits_exprs.mpr fun e he => fits_exprs.mp h e (List.dropLast_subset es he)

/-- So does the last of them. -/
lemma Fits.last (h : Fits c k declared nested (exprsOccurrences es)) :
    Fits c k declared nested (es.getLast?.getD .null).occurrences := by
  cases hlast : es.getLast? with
  | none => exact fits_null
  | some e => exact fits_exprs.mp h e (List.mem_of_getLast? hlast)

/-! ## Statements -/

/-- How often the occurrences declare the temporary. -/
def timesDeclared (c : Context) (k : Nat) (os : List Occurrence) : Nat :=
  declarations (c.temporaryName k) os

/-- Declarations of two lists add up. -/
lemma timesDeclared_append (a b : List Occurrence) :
    timesDeclared c k (a ++ b) = timesDeclared c k a + timesDeclared c k b :=
  Script.declarations_append _ a b

/-- What fits declares no temporary. -/
lemma Fits.timesDeclared_eq_zero {os : List Occurrence} (h : Fits c k declared nested os) :
    timesDeclared c k os = 0 :=
  Script.declarations_of_ready h

/-- `before` declares the temporary before it uses it, at most once and only within `range`; behind
it `values` fit in. -/
structure Supplies (c : Context) (k : Nat) (declared nested range : Prop)
    (before values : List Occurrence) : Prop where
  scan : Scan (c.temporaryName k) declared nested before
  once : timesDeclared c k before ≤ 1
  range : timesDeclared c k before ≠ 0 → range
  fits : Fits c k (declared ∨ timesDeclared c k before ≠ 0) nested values

/-- What fits in still does behind further statements. -/
lemma Fits.behind {v : List Occurrence} (h : Fits c k declared nested v)
    (b : List Script.Stmt) :
    Fits c k (declared ∨ timesDeclared c k (stmtsOccurrences b) ≠ 0) nested v :=
  h.mono .inl fun hn => hn

namespace Supplies

variable {b b' v v' os : List Occurrence}

lemma of_fits (h : Fits c k declared nested v) : Supplies c k declared nested range [] v where
  scan := trivial
  once := Nat.zero_le _
  range := fun h => absurd rfl h
  fits := h.mono .inl fun hn => hn

lemma mono (h : Supplies c k declared nested range b v) (hdeclared : declared → declared')
    (hnested : nested → nested') (hrange : range → range') :
    Supplies c k declared' nested' range' b v where
  scan := h.scan.mono hdeclared hnested
  once := h.once
  range := fun hb => hrange (h.range hb)
  fits := h.fits.mono (Or.imp_left hdeclared) hnested

/-- Statements that are read from the start can stand behind others. -/
lemma behind (h : Supplies c k declared nested range b v) (os : List Occurrence) :
    Supplies c k (declared ∨ timesDeclared c k os ≠ 0) nested range b v :=
  h.mono .inl (fun hn => hn) fun hr => hr

/-- Other values go with the statements as well if they fit in wherever the given ones do. -/
lemma values (h : Supplies c k declared nested range b v)
    (hv : ∀ {d n : Prop}, Fits c k d n v → Fits c k d n v') :
    Supplies c k declared nested range b v' where
  scan := h.scan
  once := h.once
  range := h.range
  fits := hv h.fits

/-- Statements follow each other; their ranges do not meet. -/
lemma seq (h : Supplies c k declared nested range b v)
    (h' : Supplies c k (declared ∨ timesDeclared c k b ≠ 0) nested range' b' v')
    (hdisjoint : ¬ (range ∧ range')) :
    Supplies c k declared nested (range ∨ range') (b ++ b') (v ++ v') where
  scan := Script.scan_append.mpr ⟨h.scan, h'.scan⟩
  once := by
    have hb := h.once
    have hb' := h'.once
    have hnot : ¬ (timesDeclared c k b ≠ 0 ∧ timesDeclared c k b' ≠ 0) :=
      fun hboth => hdisjoint ⟨h.range hboth.1, h'.range hboth.2⟩
    rw [timesDeclared_append]
    omega
  range := by
    rw [timesDeclared_append]
    intro hne
    by_cases hb : timesDeclared c k b = 0
    · exact .inr (h'.range (by omega))
    · exact .inl (h.range hb)
  fits := by
    rw [timesDeclared_append, fits_append]
    constructor
    · exact h.fits.mono (Or.imp_right fun hb => by omega) fun hn => hn
    · refine h'.fits.mono ?_ fun hn => hn
      rintro ((hd | hb) | hb')
      · exact .inl hd
      · exact .inr (by omega)
      · exact .inr (by omega)

/-- Behind the statements stands more that fits in. -/
lemma append (h : Supplies c k declared nested range b v)
    (hos : Fits c k (declared ∨ timesDeclared c k b ≠ 0) nested os) :
    Supplies c k declared nested range (b ++ os) v := by
  have hnone := hos.timesDeclared_eq_zero
  have htimes : timesDeclared c k (b ++ os) = timesDeclared c k b := by
    rw [timesDeclared_append]
    omega
  exact {
    scan := Script.scan_append.mpr ⟨h.scan, Script.scan_of_ready hos⟩
    once := by rw [htimes]; exact h.once
    range := by rw [htimes]; exact h.range
    fits := by rw [htimes]; exact h.fits }

/-- The declaration of the next temporary. -/
lemma var (initializer : Option Script.Expr) (n : Nat)
    (h : Fits c k declared nested (Script.optionalOccurrences initializer)) :
    Supplies c k declared nested (n ≤ k ∧ k < n + 1)
      (.declared (c.temporaryName n) :: Script.optionalOccurrences initializer)
      [.name (c.temporaryName n)] := by
  have hnone : declarations (c.temporaryName k) (Script.optionalOccurrences initializer) = 0 :=
    h.timesDeclared_eq_zero
  have hdeclares : (Occurrence.declared (c.temporaryName n)).declares (c.temporaryName k) = true ↔
      n = k := by
    rw [Occurrence.declares, beq_iff_eq]
    exact c.temporaryName_injective.eq_iff
  have htimes : timesDeclared c k (.declared (c.temporaryName n) ::
      Script.optionalOccurrences initializer) = if n = k then 1 else 0 := by
    rw [timesDeclared, Script.declarations_cons, hnone]
    simp only [hdeclares, Nat.add_zero]
  refine ⟨⟨?_, ?_⟩, ?_, ?_, ?_⟩
  · by_cases hnk : n = k
    · exact .inl (hdeclares.mpr hnk)
    · exact .inr fun hname => hnk (c.temporaryName_injective hname)
  · exact Script.scan_of_ready (h.mono .inl fun hn => hn)
  · rw [htimes]
    split <;> omega
  · rw [htimes]
    split <;> omega
  · refine fits_name fun hname => .inr ?_
    rw [htimes, if_pos (c.temporaryName_injective hname)]
    exact Nat.one_ne_zero

end Supplies

/-- Statements that are emitted while the counter goes from `n` to `m`, with their values. -/
def SuppliesFrom (c : Context) (k : Nat) (declared nested : Prop) (n : Nat)
    (before : List Script.Stmt) (values : List Occurrence) (m : Nat) : Prop :=
  n ≤ m ∧ Supplies c k declared nested (n ≤ k ∧ k < m) (stmtsOccurrences before) values

namespace SuppliesFrom

variable {n m p : Nat} {b b' : List Script.Stmt} {v v' : List Occurrence}

lemma of_fits (h : Fits c k declared nested v) (hle : n ≤ m) :
    SuppliesFrom c k declared nested n [] v m :=
  ⟨hle, .of_fits h⟩

/-- The value may be another that fits wherever it does. -/
lemma values (h : SuppliesFrom c k declared nested n b v m)
    (hv : ∀ {d n : Prop}, Fits c k d n v → Fits c k d n v') :
    SuppliesFrom c k declared nested n b v' m :=
  ⟨h.1, h.2.values hv⟩

/-- What is supplied in turn is supplied together. -/
lemma seq (h : SuppliesFrom c k declared nested n b v m)
    (h' : SuppliesFrom c k (declared ∨ timesDeclared c k (stmtsOccurrences b) ≠ 0) nested m b' v' p) :
    SuppliesFrom c k declared nested n (b ++ b') (v ++ v') p := by
  have hle := h.1
  have hle' := h'.1
  refine ⟨by omega, ?_⟩
  rw [Script.stmtsOccurrences_append]
  exact (h.2.seq h'.2 (by omega)).mono (fun hd => hd) (fun hn => hn) (by omega)

/-- Other values that fit in behind the statements. -/
lemma fit (h : SuppliesFrom c k declared nested n b v m)
    (hv : Fits c k (declared ∨ timesDeclared c k (stmtsOccurrences b) ≠ 0) nested v') (hle : m ≤ p) :
    SuppliesFrom c k declared nested n b v' p := by
  have hle' := h.1
  refine ⟨by omega, h.2.scan, h.2.once, fun hb => ?_, hv⟩
  have hrange := h.2.range hb
  omega

/-- An expression statement that only uses the values. -/
lemma expr (h : SuppliesFrom c k declared nested n b v m) {e : Script.Expr}
    (he : ∀ {d n : Prop}, Fits c k d n v → Fits c k d n e.occurrences) :
    SuppliesFrom c k declared nested n (b ++ [.expr e]) v m := by
  refine ⟨h.1, ?_⟩
  rw [Script.stmtsOccurrences_append]
  refine h.2.append ?_
  simp only [stmtsOccurrences, Script.Stmt.occurrences, List.append_nil]
  exact he h.2.fits

/-- The counter may have started lower. -/
lemma from_le (h : SuppliesFrom c k declared nested m b v p) (hle : n ≤ m) :
    SuppliesFrom c k declared nested n b v p := by
  have hle' := h.1
  exact ⟨by omega, h.2.mono (fun hd => hd) (fun hn => hn) (by omega)⟩

/-- The declaration of the next temporary. -/
lemma var (initializer : Option Script.Expr)
    (h : Fits c k declared nested (Script.optionalOccurrences initializer)) :
    SuppliesFrom c k declared nested n [.var (c.temporaryName n) initializer]
      [.name (c.temporaryName n)] (n + 1) := by
  refine ⟨Nat.le_succ _, ?_⟩
  simp only [stmtsOccurrences, Script.Stmt.var, Script.Stmt.occurrences,
    Script.bindingsOccurrences, List.append_nil]
  exact .var initializer n h

end SuppliesFrom

/-! ## Captured values -/

/-- Looking at an expression takes no temporary. -/
lemma leads_isStable (e : Script.Expr) (n : Nat) : Leads (isStable c e) n fun _ m => m = n := by
  rintro s rfl
  cases e <;> rfl

/-- A captured value fits in behind its capture. -/
lemma leads_spill {e : Script.Expr} (h : Fits c k declared nested e.occurrences) (n : Nat) :
    Leads (spill c e) n fun l m =>
      SuppliesFrom c k declared nested n l.before l.value.occurrences m := by
  refine (leads_isStable e n).bind fun stable m hm => ?_
  subst hm
  split
  · exact .pure (.of_fits h (Nat.le_refl _))
  · refine (Leads.newTemporary c m).bind ?_
    rintro name p ⟨rfl, rfl⟩
    exact .pure (.var (some e) h)

/-- Captured values are supplied. -/
lemma leads_spillAll (h : Fits c k declared nested (exprsOccurrences es)) (n : Nat) :
    Leads (spillAll c es) n fun r m =>
      SuppliesFrom c k declared nested n r.before (exprsOccurrences r.values) m := by
  induction es generalizing declared n with
  | nil => exact .pure (.of_fits h (Nat.le_refl _))
  | cons e rest ih =>
    obtain ⟨he, hrest⟩ := fits_append.mp h
    refine (leads_spill he n).bind fun first m hfirst => ?_
    refine (ih (hrest.behind first.before) m).bind fun others p hothers => ?_
    exact .pure (hfirst.seq hothers)

/-- So is a value captured for a later one. -/
lemma leads_spillBefore {later e : Script.Expr} (h : Fits c k declared nested e.occurrences)
    (n : Nat) :
    Leads (spillBefore c later e) n fun l m =>
      SuppliesFrom c k declared nested n l.before l.value.occurrences m := by
  unfold spillBefore
  split
  · split
    · exact leads_spill h n
    · exact .pure (.of_fits h (Nat.le_refl _))
  · exact leads_spill h n

/-- So are several such values. -/
lemma leads_spillAllBefore {later : Script.Expr}
    (h : Fits c k declared nested (exprsOccurrences es)) (n : Nat) :
    Leads (spillAllBefore c later es) n fun r m =>
      SuppliesFrom c k declared nested n r.before (exprsOccurrences r.values) m := by
  induction es generalizing declared n with
  | nil => exact .pure (.of_fits h (Nat.le_refl _))
  | cons e rest ih =>
    obtain ⟨he, hrest⟩ := fits_append.mp h
    refine (leads_spillBefore he n).bind fun first m hfirst => ?_
    refine (ih (hrest.behind first.before) m).bind fun others p hothers => ?_
    exact .pure (hfirst.seq hothers)

/-- An operand that needs statements has the earlier ones captured in front of them.  The numbers
of the captures lie behind those of the operand. -/
lemma leads_add {operands : Operands} {operand : Lowered} {n m p : Nat}
    (h : SuppliesFrom c k False nested n operands.before (exprsOccurrences operands.values) m)
    (h' : SuppliesFrom c k False nested m operand.before operand.value.occurrences p) :
    Leads (operands.add c operand) p fun r q =>
      SuppliesFrom c k False nested n r.before (exprsOccurrences r.values) q := by
  have hle := h.1
  have hle' := h'.1
  unfold Operands.add
  by_cases hempty : operand.before = []
  · simp only [hempty, List.isEmpty_nil, if_true]
    rw [hempty] at h'
    refine .pure ⟨by omega, ?_⟩
    have hboth := h.2.seq (h'.2.behind _) (by omega)
    simp only [stmtsOccurrences, List.append_nil] at hboth
    simp only [Script.exprsOccurrences_append, exprsOccurrences, List.append_nil]
    exact hboth.mono (fun hd => hd) (fun hn => hn) (by omega)
  · simp only [List.isEmpty_iff, hempty, if_false]
    refine (leads_spillAll h.2.fits p).bind fun earlier q hearlier => ?_
    have hle'' := hearlier.1
    refine .pure ⟨by omega, ?_⟩
    have hcaptured := h.2.seq hearlier.2 (by omega)
    have hboth := hcaptured.seq (h'.2.behind _) (by omega)
    simp only [Script.stmtsOccurrences_append, Script.exprsOccurrences_append, exprsOccurrences,
      List.append_nil]
    refine (hboth.mono (fun hd => hd) (fun hn => hn) (by omega)).values ?_
    simp only [fits_append]
    rintro d n ⟨⟨-, hvalues⟩, hvalue⟩
    exact ⟨hvalues, hvalue⟩

/-! ## Identifiers that are taken over -/

/-- The identifier of a variable. -/
def Context.variableName (c : Context) (id : VariableId) : String :=
  ((c.scope.get? id).map (·.name)).getD (unknownVariable id)

/-- The identifier at the root of the name of a type. -/
def Context.typeRoot (c : Context) (id : TypeId) : String :=
  let name := (c.naming.typeName? c.program id).getD default
  (Text.dottedParts name).headD name

/-- The member with the given id. -/
def Context.memberOf (c : Context) (id : MemberId) : Member :=
  (c.program.member? id).getD default

/-- The identifiers in the object of an access without target. -/
def Context.receiverRoots (c : Context) (id : MemberId) : List String :=
  if (c.memberOf id).isStatic then [c.typeRoot (c.memberOf id).declaringType] else []

/-- The identifiers that an expression itself brings into the script.  For a target of an assignment
or increment these are the identifiers of the target. -/
def Context.identifiers (c : Context) : Source.Expr → List String
  | .localVar _ id => [c.variableName id]
  | .field _ none id | .property _ none id | .call _ none id _ => c.receiverRoots id
  | .create _ id _ => [c.typeRoot (c.memberOf id).declaringType]
  | .assign _ _ target _ | .increment _ _ target => c.identifiers target
  | .lambda _ _ parameters _ => parameters.map c.variableName
  | _ => []

/-- The identifiers that a node itself brings into the script. -/
def Context.nodeIdentifiers (c : Context) : Source.Node → List String
  | .expr e => c.identifiers e
  | .stmt (.declare _ declarators) =>
    declarators.filterMap fun d => (c.scope.get? d.id).map (·.name)
  | .stmt _ => []

/-- Other names fit. -/
lemma fits_of_not_mem {names : List String} (h : c.temporaryName k ∉ names) :
    Fits c k declared nested (names.map .name) := by
  intro o ho
  obtain ⟨x, hx, rfl⟩ := List.mem_map.mp ho
  exact fun hname => absurd (hname ▸ hx) h

/-- A variable is read by its name. -/
lemma readVariable_occurrences (id : VariableId) (s : State) :
    (readVariable c id s).1.occurrences = [.name (c.variableName id)] := by
  unfold readVariable Context.variableName
  cases c.scope.get? id with
  | none => rfl
  | some v =>
    simp only [Option.map_some, Option.getD_some]
    by_cases hv : v.byReference = true
    · rw [if_pos hv]
      rfl
    · rw [if_neg hv]
      rfl

/-- A dotted name mentions its first part. -/
lemma dottedName_occurrences (name : String) :
    (dottedName name).occurrences = [.name ((Text.dottedParts name).headD name)] := by
  have hfold : ∀ (parts : List String) (e : Script.Expr),
      (parts.foldl Script.Expr.member e).occurrences = e.occurrences := by
    intro parts
    induction parts with
    | nil => exact fun e => rfl
    | cons part rest ih => exact fun e => by rw [List.foldl_cons, ih, Script.Expr.occurrences]
  unfold dottedName
  cases Text.dottedParts name with
  | nil => rfl
  | cons first rest => exact hfold rest (.ident first)

/-- A type mentions its root. -/
lemma typeReference_occurrences (id : TypeId) (s : State) :
    (typeReference c id s).1.occurrences = [.name (c.typeRoot id)] := by
  unfold typeReference Context.typeRoot
  cases c.naming.typeName? c.program id with
  | none => exact dottedName_occurrences default
  | some name => exact dottedName_occurrences name

/-- An implicit receiver mentions its roots. -/
lemma implicitReceiver_occurrences (id : MemberId) (s : State) :
    (implicitReceiver c id s).1.occurrences = (c.receiverRoots id).map .name := by
  have hrun : (implicitReceiver c id s).1 =
      ((if (c.memberOf id).isStatic then typeReference c (c.memberOf id).declaringType
        else return .this : Lower Script.Expr) (getMember c id s).2).1 := by
    unfold implicitReceiver getMember Context.memberOf
    cases c.program.member? id <;> rfl
  rw [hrun]
  unfold Context.receiverRoots
  by_cases hstatic : (c.memberOf id).isStatic = true
  · simp only [hstatic, if_true]
    exact typeReference_occurrences _ _
  · simp only [hstatic, Bool.false_eq_true, if_false]
    rfl

/-- Reading a variable of another name fits. -/
lemma fits_readVariable {id : VariableId} (h : c.temporaryName k ≠ c.variableName id) :
    Gives (readVariable c id) fun e => Fits c k declared nested e.occurrences := by
  intro s
  rw [readVariable_occurrences]
  exact fits_name fun hname => absurd hname.symm h

/-- So does the receiver of a place. -/
lemma fits_placeReceiver {id : MemberId} {target : Option Source.Expr}
    {operands : List Script.Expr} (h : Fits c k declared nested (exprsOccurrences operands))
    (hnames : target = none → c.temporaryName k ∉ c.receiverRoots id) :
    Gives (placeReceiver c id target operands) fun e =>
      Fits c k declared nested e.occurrences := by
  cases target with
  | some e => exact .pure h.headD
  | none =>
    intro s
    change Fits c k declared nested (implicitReceiver c id s).1.occurrences
    rw [implicitReceiver_occurrences]
    exact fits_of_not_mem (hnames rfl)

/-! ## Members -/

/-- The occurrences in a place. -/
def Place.occurrences : Place → List Occurrence
  | .binding location | .direct location => location.occurrences
  | .accessor object _ arguments => object.occurrences ++ exprsOccurrences arguments

section Property

variable {object : Script.Expr} {arguments : List Script.Expr}
  (hobject : Fits c k declared nested object.occurrences)
  (harguments : Fits c k declared nested (exprsOccurrences arguments)) (id : MemberId)
include hobject harguments

/-- So does reading a property. -/
lemma fits_getProperty : Gives (getProperty c object id arguments) fun e =>
    Fits c k declared nested e.occurrences := by
  refine gives_bind fun form => ?_
  split
  · exact .pure (fits_append.mpr ⟨hobject, harguments⟩)
  · exact .pure hobject
  · exact .pure hobject
  · exact .pure (fits_append.mpr ⟨hobject, harguments.headD⟩)
  · exact gives_bind fun _ => .pure fits_null

/-- So does the place of a property. -/
lemma fits_propertyPlace : Gives (propertyPlace c object id arguments) fun place =>
    Fits c k declared nested place.occurrences := by
  refine gives_bind fun form => ?_
  split
  · exact .pure (fits_append.mpr ⟨hobject, harguments⟩)
  · exact .pure hobject
  · exact .pure hobject
  · exact .pure (fits_append.mpr ⟨hobject, harguments.headD⟩)
  · exact gives_bind fun _ => gives_bind fun _ => .pure hobject

end Property

/-- So does creating an object. -/
lemma fits_createObject {id : MemberId} {arguments : List Script.Expr}
    (h : Fits c k declared nested (exprsOccurrences arguments))
    (hname : c.temporaryName k ≠ c.typeRoot (c.memberOf id).declaringType) :
    Gives (createObject c id arguments) fun e => Fits c k declared nested e.occurrences := by
  refine (gives_require _).bind ?_
  rintro m rfl
  have htype : Gives (typeReference c (c.memberOf id).declaringType) fun e =>
      Fits c k declared nested e.occurrences := by
    intro s
    rw [typeReference_occurrences]
    exact fits_name fun hroot => absurd hroot.symm hname
  refine htype.bind fun type htype => gives_bind fun form => ?_
  have hnew : Fits c k declared nested (type.occurrences ++ exprsOccurrences arguments) :=
    fits_append.mpr ⟨htype, h⟩
  split
  · exact .pure hnew
  · exact .pure hnew
  · exact gives_bind fun _ => .pure hnew

/-! ## Places -/

/-- So does the place of a target. -/
lemma fits_placeOf {target : Source.Expr} {operands : List Script.Expr}
    (h : Fits c k declared nested (exprsOccurrences operands))
    (hnames : c.temporaryName k ∉ c.identifiers target) :
    Gives (placeOf c target operands) fun place =>
      Fits c k declared nested place.occurrences := by
  unfold placeOf
  split
  · rename_i id
    have hname : c.temporaryName k ≠ c.variableName id := by
      simpa [Context.identifiers] using hnames
    exact (fits_readVariable hname).bind fun _ hlocation => .pure hlocation
  · refine (fits_placeReceiver h ?_).bind fun _ hreceiver => gives_bind fun _ => .pure hreceiver
    rintro rfl
    simpa only [Context.identifiers] using hnames
  · refine (fits_placeReceiver h ?_).bind fun _ hreceiver =>
      fits_propertyPlace hreceiver fits_nil _
    rintro rfl
    simpa only [Context.identifiers] using hnames
  · exact fits_propertyPlace h.headD h.tail _
  · exact .pure (fits_append.mpr ⟨h.headD, h.tail.headD⟩)
  · exact .pure fits_null

/-- What captures the parts of a place leaves a place that fits in behind the captures. -/
lemma leads_stabilize {place : Place} (h : Fits c k declared nested place.occurrences) (n : Nat) :
    Leads (place.stabilize c) n fun r m =>
      SuppliesFrom c k declared nested n r.1 r.2.occurrences m := by
  unfold Place.stabilize
  split
  · rename_i target name
    have htarget : Fits c k declared nested target.occurrences := h
    exact (leads_spill htarget n).bind fun target m hcaptured => .pure hcaptured
  · obtain ⟨htarget, hkey⟩ := fits_append.mp h
    refine (leads_spill htarget n).bind fun target m htarget => ?_
    refine (leads_spill (hkey.behind target.before) m).bind fun key p hkey => ?_
    exact .pure (htarget.seq hkey)
  · obtain ⟨hobject, harguments⟩ := fits_append.mp h
    refine (leads_spill hobject n).bind fun object m hobject => ?_
    refine (leads_spillAll (harguments.behind object.before) m).bind fun arguments p harguments => ?_
    exact .pure (hobject.seq harguments)
  · exact .pure (.of_fits h (Nat.le_refl _))

/-- Reading a place keeps what fits. -/
lemma leads_load {place : Place} (h : Fits c k declared nested place.occurrences) (n : Nat) :
    Leads (place.load c) n fun e m => n ≤ m ∧ Fits c k declared nested e.occurrences := by
  unfold Place.load
  split
  · exact .pure ⟨Nat.le_refl _, h⟩
  · exact .pure ⟨Nat.le_refl _, h⟩
  · obtain ⟨hobject, harguments⟩ := fits_append.mp h
    exact (composed_getProperty c _ _ _).leads_of (fits_getProperty hobject harguments _) n

/-- So does writing to it. -/
lemma leads_store {place : Place} {value : Script.Expr}
    (hplace : Fits c k declared nested place.occurrences)
    (hvalue : Fits c k declared nested value.occurrences) (important : Bool) (n : Nat) :
    Leads (place.store c value important) n fun l m =>
      SuppliesFrom c k declared nested n l.before l.value.occurrences m := by
  have hdirect : ∀ location : Script.Expr, Fits c k declared nested location.occurrences →
      Leads (Pure.pure { value := .set location value } : Lower Lowered) n fun l m =>
        SuppliesFrom c k declared nested n l.before l.value.occurrences m :=
    fun location hlocation =>
      .pure (.of_fits (fits_append.mpr ⟨hlocation, hvalue⟩) (Nat.le_refl _))
  unfold Place.store
  split
  · exact hdirect _ hplace
  · exact hdirect _ hplace
  · rename_i object id arguments
    obtain ⟨hobject, harguments⟩ := fits_append.mp hplace
    refine ((composed_setterName c id).leads n).bind fun setter m hm => ?_
    have hcall : Fits c k declared nested
        (Script.Expr.call (.member object setter) (arguments ++ [value])).occurrences := by
      simp only [Script.Expr.occurrences, Script.exprsOccurrences_append, exprsOccurrences,
        List.append_nil, fits_append]
      exact ⟨hobject, harguments, hvalue⟩
    split
    · exact .pure (.of_fits hcall hm)
    · refine (leads_isStable value m).bind fun stable p hp => ?_
      subst hp
      split
      · have hboth : SuppliesFrom c k declared nested n [] (_ ++ value.occurrences) p :=
          .of_fits (fits_append.mpr ⟨hcall, hvalue⟩) hm
        exact .pure ((hboth.expr fun h => (fits_append.mp h).1).values fun h =>
          (fits_append.mp h).2)
      · refine (leads_spillBefore hobject p).bind fun object q hobject => ?_
        refine (leads_spillAllBefore (harguments.behind object.before) q).bind
          fun arguments r harguments => ?_
        have hfront := hobject.seq harguments
        refine (leads_spill (hvalue.behind (object.before ++ arguments.before)) r).bind
          fun value t hvalue => ?_
        refine .pure ((((hfront.seq hvalue).expr ?_).values ?_).from_le hm)
        · simp only [Script.Expr.occurrences, Script.exprsOccurrences_append, exprsOccurrences,
            List.append_nil, fits_append]
          exact fun h => ⟨h.1.1, h.1.2, h.2⟩
        · exact fun h => (fits_append.mp h).2

end ScriptCompiler.Lowering
