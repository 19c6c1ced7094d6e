import ScriptCompiler.Script.Tree

/-!
# Where names occur in a script

The occurrences of a script list, in the order of its text, the names it uses, the names it declares
and the function expressions it holds.  Functions are not entered: a variable belongs to the
function body that declares it, so each body is looked at on its own, and `Encloses` leads from a
body to the bodies of the functions inside it.

For one name `x`, `Scan` reads occurrences from left to right and asks that `x` is declared before
it is used.  It is told whether `x` was declared before (`declared`) and whether `x` may occur in
inner functions (`nested`).  Together with the number of declarations it says all that
`WellScoped` asks of a function body.
-/

namespace ScriptCompiler.Script

variable {o : Occurrence}

/-- A name or a function expression in a script. -/
inductive Occurrence where
  | name (x : String)
  | declared (x : String)
  | function (parameters : List String) (body : List Stmt)

mutual

/-- The occurrences in an expression, in the order of the text. -/
def Expr.occurrences : Expr → List Occurrence
  | .null | .boolean _ | .number _ | .string _ | .this => []
  | .ident x => [.name x]
  | .member target _ => target.occurrences
  | .index target key => target.occurrences ++ key.occurrences
  | .call target arguments => target.occurrences ++ exprsOccurrences arguments
  | .new constructor arguments => constructor.occurrences ++ exprsOccurrences arguments
  | .object properties => propertiesOccurrences properties
  | .array items | .comma items => exprsOccurrences items
  | .binary _ left right => left.occurrences ++ right.occurrences
  | .unary _ operand | .update _ operand => operand.occurrences
  | .assign _ target value => target.occurrences ++ value.occurrences
  | .conditional condition whenTrue whenFalse =>
    condition.occurrences ++ (whenTrue.occurrences ++ whenFalse.occurrences)
  | .function name parameters body => [.function (name.toList ++ parameters) body]

/-- The occurrences in expressions that follow each other. -/
def exprsOccurrences : List Expr → List Occurrence
  | [] => []
  | e :: rest => e.occurrences ++ exprsOccurrences rest

/-- The occurrences in the values of an object literal. -/
def propertiesOccurrences : List Property → List Occurrence
  | [] => []
  | .mk _ value :: rest => value.occurrences ++ propertiesOccurrences rest

end

/-- The occurrences in an expression that may be missing. -/
def optionalOccurrences : Option Expr → List Occurrence
  | none => []
  | some e => e.occurrences

/-- The occurrences in bindings: each name stands in front of its initial value. -/
def bindingsOccurrences : List Binding → List Occurrence
  | [] => []
  | .mk name initializer :: rest =>
    .declared name :: (optionalOccurrences initializer ++ bindingsOccurrences rest)

mutual

/-- The occurrences in a statement, in the order of the text. -/
def Stmt.occurrences : Stmt → List Occurrence
  | .comment _ | .break | .continue | .empty => []
  | .declare bindings => bindingsOccurrences bindings
  | .expr value | .throw value => value.occurrences
  | .block body => stmtsOccurrences body
  | .return value => optionalOccurrences value
  | .branch condition thenBranch elseBranch =>
    condition.occurrences ++ (thenBranch.occurrences ++ elseOccurrences elseBranch)
  | .whileLoop condition body => condition.occurrences ++ body.occurrences
  | .doWhile body condition => body.occurrences ++ condition.occurrences

/-- The occurrences in an else branch. -/
def elseOccurrences : Option Stmt → List Occurrence
  | none => []
  | some s => s.occurrences

/-- The occurrences in statements that follow each other. -/
def stmtsOccurrences : List Stmt → List Occurrence
  | [] => []
  | s :: rest => s.occurrences ++ stmtsOccurrences rest

end

theorem exprsOccurrences_append (xs ys : List Expr) :
    exprsOccurrences (xs ++ ys) = exprsOccurrences xs ++ exprsOccurrences ys := by
  induction xs with
  | nil => rfl
  | cons e rest ih => simp only [List.cons_append, exprsOccurrences, ih, List.append_assoc]

theorem mem_exprsOccurrences {es : List Expr} :
    o ∈ exprsOccurrences es ↔ ∃ e ∈ es, o ∈ e.occurrences := by
  induction es with
  | nil => simp [exprsOccurrences]
  | cons e rest ih => simp [exprsOccurrences, ih]

theorem stmtsOccurrences_append (xs ys : List Stmt) :
    stmtsOccurrences (xs ++ ys) = stmtsOccurrences xs ++ stmtsOccurrences ys := by
  induction xs with
  | nil => simp [stmtsOccurrences]
  | cons s rest ih => simp only [List.cons_append, stmtsOccurrences, ih, List.append_assoc]

theorem bindingsOccurrences_append (xs ys : List Binding) :
    bindingsOccurrences (xs ++ ys) = bindingsOccurrences xs ++ bindingsOccurrences ys := by
  induction xs with
  | nil => rfl
  | cons b rest ih =>
    obtain ⟨name, initializer⟩ := b
    simp only [List.cons_append, bindingsOccurrences, ih, List.append_assoc]

/-! ## Function bodies -/

/-- The occurrences in a function: its parameters and what stands directly in its body. -/
def functionOccurrences (parameters : List String) (body : List Stmt) : List Occurrence :=
  parameters.map .name ++ stmtsOccurrences body

/-- `Encloses outer inner` says that `inner` is `outer` or the body of a function inside it. -/
inductive Encloses : List Occurrence → List Occurrence → Prop where
  | refl (body : List Occurrence) : Encloses body body
  | inside {outer inner : List Occurrence} {parameters : List String} {body : List Stmt} :
    .function parameters body ∈ outer →
      Encloses (functionOccurrences parameters body) inner → Encloses outer inner

/-- Whether the occurrence declares `x`. -/
def Occurrence.declares (x : String) : Occurrence → Bool
  | .declared y => y == x
  | .name _ | .function .. => false

/-- Whether the occurrence is `x`, used or declared. -/
def Occurrence.mentions (x : String) : Occurrence → Bool
  | .name y | .declared y => y == x
  | .function .. => false

/-- How often `x` is declared. -/
def declarations (x : String) (os : List Occurrence) : Nat :=
  os.countP (Occurrence.declares x)

/-- `x` occurs in the body or in a function inside it. -/
def Reaches (x : String) (body : List Occurrence) : Prop :=
  ∃ inner, Encloses body inner ∧ ∃ o ∈ inner, o.mentions x = true

/-- If `x` occurs in the body, it is declared in it once, and in front of its other occurrences. -/
def DeclaredFirst (x : String) (body : List Occurrence) : Prop :=
  (∃ o ∈ body, o.mentions x = true) →
    ∃ front back, body = front ++ .declared x :: back ∧
      (∀ o ∈ front, o.mentions x = false) ∧ ∀ o ∈ back, o.declares x = false

/-- If `x` occurs in the body, it occurs in no function inside it. -/
def KeptInside (x : String) (body : List Occurrence) : Prop :=
  (∃ o ∈ body, o.mentions x = true) →
    ∀ parameters inner, .function parameters inner ∈ body →
      ¬ Reaches x (functionOccurrences parameters inner)

/-- The body declares `x` before it uses it, and shares it with no function inside it. -/
structure WellScoped (x : String) (body : List Occurrence) : Prop where
  declaredFirst : DeclaredFirst x body
  keptInside : KeptInside x body

/-! ## Reading from left to right -/

variable {x : String} {declared declared' nested nested' : Prop} {os : List Occurrence}

/-- The occurrence fits in behind a declaration of `x`, if there is one, and does not declare it. -/
def Occurrence.Ready (x : String) (declared nested : Prop) : Occurrence → Prop
  | .name y => y = x → declared
  | .declared y => y ≠ x
  | .function parameters body =>
    (∀ inner, Encloses (functionOccurrences parameters body) inner → WellScoped x inner) ∧
      (Reaches x (functionOccurrences parameters body) → nested)

/-- `x` is declared before it is used. -/
def Scan (x : String) (declared nested : Prop) : List Occurrence → Prop
  | [] => True
  | o :: rest =>
    (o.declares x = true ∨ o.Ready x declared nested) ∧
      Scan x (declared ∨ o.declares x = true) nested rest

theorem Occurrence.Ready.mono (h : o.Ready x declared nested) (hdeclared : declared → declared')
    (hnested : nested → nested') : o.Ready x declared' nested' := by
  cases o with
  | name y => exact fun hy => hdeclared (h hy)
  | declared y => exact h
  | function parameters body => exact ⟨h.1, fun hreach => hnested (h.2 hreach)⟩

theorem Occurrence.Ready.declares_eq_false (h : o.Ready x declared nested) :
    o.declares x = false := by
  cases o with
  | name y => rfl
  | declared y => exact beq_eq_false_iff_ne.mpr h
  | function parameters body => rfl

theorem Scan.mono (h : Scan x declared nested os)
    (hdeclared : declared → declared') (hnested : nested → nested') :
    Scan x declared' nested' os := by
  induction os generalizing declared declared' with
  | nil => trivial
  | cons o rest ih =>
    exact ⟨h.1.imp_right fun ho => ho.mono hdeclared hnested, ih h.2 (Or.imp_left hdeclared)⟩

theorem declarations_append (x : String) (a b : List Occurrence) :
    declarations x (a ++ b) = declarations x a + declarations x b :=
  List.countP_append

theorem declarations_cons (x : String) (o : Occurrence) (rest : List Occurrence) :
    declarations x (o :: rest) = (if o.declares x = true then 1 else 0) + declarations x rest := by
  unfold declarations
  rw [List.countP_cons, Nat.add_comm]

theorem declarations_nil (x : String) : declarations x [] = 0 :=
  rfl

theorem scan_append {a b : List Occurrence} :
    Scan x declared nested (a ++ b) ↔
      Scan x declared nested a ∧ Scan x (declared ∨ declarations x a ≠ 0) nested b := by
  induction a generalizing declared with
  | nil => simp [Scan, declarations_nil]
  | cons o rest ih =>
    have hsplit : ((declared ∨ o.declares x = true) ∨ declarations x rest ≠ 0) ↔
        (declared ∨ declarations x (o :: rest) ≠ 0) := by
      rw [declarations_cons, or_assoc]
      refine or_congr_right ?_
      by_cases ho : o.declares x = true
      · simp [ho]
      · simp [ho]
    rw [List.cons_append]
    simp only [Scan, ih, hsplit, and_assoc]

/-- What declares nothing is read if each of its occurrences fits in. -/
theorem scan_of_ready (h : ∀ o ∈ os, o.Ready x declared nested) :
    Scan x declared nested os := by
  induction os generalizing declared with
  | nil => trivial
  | cons o rest ih =>
    obtain ⟨ho, hrest⟩ := List.forall_mem_cons.mp h
    exact ⟨.inr ho, ih fun p hp => (hrest p hp).mono .inl fun hn => hn⟩

theorem declarations_of_ready (h : ∀ o ∈ os, o.Ready x declared nested) :
    declarations x os = 0 :=
  List.countP_eq_zero.mpr fun o ho => by simp [(h o ho).declares_eq_false]

mutual

/-- An expression declares nothing. -/
theorem Expr.declarations_occurrences (x : String) : ∀ e : Expr, declarations x e.occurrences = 0
  | .null | .boolean _ | .number _ | .string _ | .this | .ident _ | .function .. => by
    simp [Expr.occurrences, declarations, Occurrence.declares]
  | .member target _ => by
    simp only [Expr.occurrences, target.declarations_occurrences x]
  | .index target key => by
    simp only [Expr.occurrences, declarations_append, target.declarations_occurrences x,
      key.declarations_occurrences x]
  | .call target arguments => by
    simp only [Expr.occurrences, declarations_append, target.declarations_occurrences x,
      declarations_exprsOccurrences x arguments]
  | .new constructor arguments => by
    simp only [Expr.occurrences, declarations_append, constructor.declarations_occurrences x,
      declarations_exprsOccurrences x arguments]
  | .object properties => by
    simp only [Expr.occurrences, declarations_propertiesOccurrences x properties]
  | .array items | .comma items => by
    simp only [Expr.occurrences, declarations_exprsOccurrences x items]
  | .binary _ left right => by
    simp only [Expr.occurrences, declarations_append, left.declarations_occurrences x,
      right.declarations_occurrences x]
  | .unary _ operand | .update _ operand => by
    simp only [Expr.occurrences, operand.declarations_occurrences x]
  | .assign _ target value => by
    simp only [Expr.occurrences, declarations_append, target.declarations_occurrences x,
      value.declarations_occurrences x]
  | .conditional condition whenTrue whenFalse => by
    simp only [Expr.occurrences, declarations_append, condition.declarations_occurrences x,
      whenTrue.declarations_occurrences x, whenFalse.declarations_occurrences x]

/-- Expressions declare nothing. -/
theorem declarations_exprsOccurrences (x : String) :
    ∀ es : List Expr, declarations x (exprsOccurrences es) = 0
  | [] => rfl
  | e :: rest => by
    simp only [exprsOccurrences, declarations_append, e.declarations_occurrences x,
      declarations_exprsOccurrences x rest]

/-- The values of an object literal declare nothing. -/
theorem declarations_propertiesOccurrences (x : String) :
    ∀ properties : List Property, declarations x (propertiesOccurrences properties) = 0
  | [] => rfl
  | .mk _ value :: rest => by
    simp only [propertiesOccurrences, declarations_append, value.declarations_occurrences x,
      declarations_propertiesOccurrences x rest]

end

/-! ## From reading to scoping -/

/-- A name that was not declared before is declared where it occurs first. -/
theorem Scan.split (h : Scan x False nested os)
    (hx : ∃ o ∈ os, o.mentions x = true) :
    ∃ front back, os = front ++ .declared x :: back ∧ ∀ o ∈ front, o.mentions x = false := by
  induction os with
  | nil =>
    obtain ⟨o, ho, -⟩ := hx
    cases ho
  | cons o rest ih =>
    by_cases ho : o.declares x = true
    · cases o with
      | declared y =>
        obtain rfl : y = x := beq_iff_eq.mp ho
        exact ⟨[], rest, rfl, fun p hp => by cases hp⟩
      | name y => cases ho
      | function parameters body => cases ho
    · have hready : o.Ready x False nested := h.1.resolve_left ho
      have hmentions : o.mentions x = false := by
        cases o with
        | declared y | name y => exact beq_eq_false_iff_ne.mpr hready
        | function parameters body => rfl
      have hrest : Scan x False nested rest := h.2.mono (by simp [ho]) fun hn => hn
      obtain ⟨p, hp, hpx⟩ := hx
      rcases List.mem_cons.mp hp with rfl | hp
      · rw [hmentions] at hpx
        cases hpx
      · obtain ⟨front, back, hsplit, hfront⟩ := ih hrest ⟨p, hp, hpx⟩
        refine ⟨o :: front, back, by rw [hsplit, List.cons_append], ?_⟩
        exact List.forall_mem_cons.mpr ⟨hmentions, hfront⟩

/-- A name that occurs and was not declared before has a declaration. -/
theorem Scan.declarations_ne_zero (h : Scan x False nested os)
    (hx : ∃ o ∈ os, o.mentions x = true) : declarations x os ≠ 0 := by
  obtain ⟨front, back, hsplit, -⟩ := h.split hx
  rw [hsplit, declarations_append, declarations_cons]
  simp [Occurrence.declares]

/-- The functions of a scanned list are well scoped inside. -/
theorem Scan.ready_function (h : Scan x declared nested os)
    {parameters : List String} {body : List Stmt} (hf : .function parameters body ∈ os) :
    Occurrence.Ready x True nested (.function parameters body) := by
  induction os generalizing declared with
  | nil => cases hf
  | cons o rest ih =>
    rcases List.mem_cons.mp hf with rfl | hf
    · rcases h.1 with ho | ho
      · cases ho
      · exact ho.mono (fun _ => trivial) fun hn => hn
    · exact ih h.2 hf

/-- Where a name occurs that was not declared before, it has a declaration or belongs to an inner
function. -/
theorem Scan.declared_or_nested (h : Scan x False nested os)
    (hx : Reaches x os) : declarations x os ≠ 0 ∨ nested := by
  obtain ⟨inner, hinner, hmentions⟩ := hx
  cases hinner with
  | refl => exact .inl (h.declarations_ne_zero hmentions)
  | inside hf hrest => exact .inr ((h.ready_function hf).2 ⟨inner, hrest, hmentions⟩)

/-- Behind the whole list each of its occurrences fits in, the declarations of `x` apart. -/
theorem Scan.ready_of_mem (h : Scan x declared nested os) (ho : o ∈ os)
    (hdeclares : o.declares x = false) : o.Ready x (declared ∨ declarations x os ≠ 0) nested := by
  induction os generalizing declared with
  | nil => cases ho
  | cons p rest ih =>
    rcases List.mem_cons.mp ho with rfl | ho
    · have hready := h.1.resolve_left (by simp [hdeclares])
      exact hready.mono .inl fun hn => hn
    · refine (ih h.2 ho).mono ?_ fun hn => hn
      rw [declarations_cons]
      rintro ((hd | hp) | hrest)
      · exact .inl hd
      · exact .inr (by simp [hp])
      · exact .inr (by omega)

/-- A body that is read from the start, declares `x` at most once, and either declares it or passes
it on to inner functions, is well scoped. -/
theorem Scan.wellScoped
    (h : Scan x False (declarations x os = 0) os) (honce : declarations x os ≤ 1) :
    WellScoped x os where
  declaredFirst := by
    intro hx
    obtain ⟨front, back, hsplit, hfront⟩ := h.split hx
    refine ⟨front, back, hsplit, hfront, ?_⟩
    have hback : declarations x back = 0 := by
      rw [hsplit, declarations_append, declarations_cons] at honce
      simp only [Occurrence.declares, beq_self_eq_true, if_true] at honce
      omega
    intro o ho
    simpa using List.countP_eq_zero.mp hback o ho
  keptInside := by
    intro hx parameters inner hf hreach
    exact h.declarations_ne_zero hx ((h.ready_function hf).2 hreach)

/-- What is inside a well scoped function is well scoped, if the functions inside it are. -/
theorem Scan.wellScoped_of_encloses {os inner : List Occurrence}
    (h : Scan x False (declarations x os = 0) os) (honce : declarations x os ≤ 1)
    (hinner : Encloses os inner) : WellScoped x inner := by
  cases hinner with
  | refl => exact h.wellScoped honce
  | inside hf hrest => exact (h.ready_function hf).1 inner hrest

end ScriptCompiler.Script
