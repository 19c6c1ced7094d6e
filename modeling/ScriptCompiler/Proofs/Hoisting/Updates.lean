import ScriptCompiler.Proofs.Hoisting.Stores

/-!
# Places that are read and then written

A compound assignment or an increment behind accessors reads and writes the same slot, so the
sub-expressions of the place are captured first (`Stabilizes`).  Nothing is left standing then, and
`compoundAssign` and `incrementPlace` do what modifying the slot in one go does, whatever the place
is made of.
-/

namespace ScriptCompiler.Lowering

open Machine

variable {V H : Type*}

section

variable {P : Primitives V H} {c : Context} {A : VariableId → Prop} {n m m₁ m' : ℕ}
  {place place' : Place} {value : Script.Expr} {important : Bool} {captured : List Script.Stmt}

/-! ## Captured places -/

/-- The place `place'` denotes the slot of `place`, and its sub-expressions are those of `place`,
captured by the statements. -/
structure Stabilizes (P : Primitives V H) (c : Context) (A : VariableId → Prop) (n m m' : ℕ)
    (place : Place) (captured : List Script.Stmt) (place' : Place) : Prop where
  captures : Captures P c (fun _ => false) n m m' place.parts ⟨captured, place'.parts⟩
  assignable : place'.Assignable c A m'
  locate : ∀ vs (t : Memory String V H), place'.locate P c vs t = place.locate P c vs t

/-- A place can be made safe to read and then write. -/
lemma yields_stabilize (hc : Grounded P c) (h : place.Assignable c A n) (hn : n ≤ m) :
    Yields (place.stabilize c) m fun r m' => Stabilizes P c A n m m' place r.1 r.2 := by
  have hfixed : ∀ {m m' : ℕ} {es : List Script.Expr} {operands : Operands}, n ≤ m →
      Captures P c (fun _ => false) n m m' es operands → ∀ e ∈ operands.values, Tame c A m' e :=
    fun hn hcap e he => (hcap.all_fixed e he).tame fun k hk => by have := hcap.le; omega
  cases h with
  | plain hA hx => exact .pure ⟨Captures.nil, .plain hA hx, fun _ _ => rfl⟩
  | contained hv href => exact .pure ⟨Captures.nil, .contained hv href, fun _ _ => rfl⟩
  | member name ho =>
    refine (yields_spill hc ho (fun _ _ => rfl) m).bind fun target m₁ h₁ => ?_
    exact .pure ⟨h₁, .member name (hfixed hn h₁ _ List.mem_cons_self), fun _ _ => rfl⟩
  | index ho hk =>
    refine (yields_spill hc ho (fun _ _ => rfl) m).bind fun target m₁ h₁ => ?_
    refine (yields_spill hc hk (fun _ _ => rfl) m₁).bind fun key m₂ h₂ => ?_
    have hcap := h₁.cons hc h₂ (by simpa using hk) hn
    refine .pure ⟨hcap, .index ?_ ?_, fun _ _ => rfl⟩
    · exact hfixed hn hcap _ List.mem_cons_self
    · exact hfixed hn hcap _ (List.mem_cons_of_mem _ List.mem_cons_self)
  | @accessor object arguments id getter setter hform hes =>
    have hobject := hes object List.mem_cons_self
    have harguments := fun e he => hes e (List.mem_cons_of_mem object he)
    refine (yields_spill hc hobject (fun _ _ => rfl) m).bind fun first m₁ h₁ => ?_
    refine (yields_spillAll hc arguments harguments (Nat.le_trans hn h₁.le)).bind
      fun others m₂ h₂ => ?_
    have hcap := h₁.cons hc h₂ harguments hn
    exact .pure ⟨hcap, .accessor hform (hfixed hn hcap), fun _ _ => rfl⟩

/-- Captured sub-expressions are not read late. -/
lemma Stabilizes.undelayed (h : Stabilizes P c A n m m' place captured place')
    (value : Script.Expr) : Undelayed place'.parts value :=
  Undelayed.of_fixed (n := max n m') (fun k hk => by omega) h.captures.all_fixed value

/-- The value at a place is the value of its slot. -/
lemma Place.Assignable.load (hc : Grounded P c) (h : place.Assignable c A n) :
    ∃ e, place.load c = pure e ∧ Tame c A n e ∧ ∀ t : Memory String V H,
      e.eval P t = (place.locate P c (Script.evalAll P place.parts t).1 t).read P
        (Script.evalAll P place.parts t).2 := by
  have hlocation : ∀ location, place = .binding location ∨ place = .direct location →
      Tame c A n location ∧ ∀ t : Memory String V H,
        location.eval P t = (place.locate P c (Script.evalAll P place.parts t).1 t).read P
          (Script.evalAll P place.parts t).2 := fun location hl =>
    ⟨h.tame_location hc hl, h.eval hc hl⟩
  cases h with
  | plain | contained => exact ⟨_, rfl, hlocation _ (Or.inl rfl)⟩
  | member | index => exact ⟨_, rfl, hlocation _ (Or.inr rfl)⟩
  | @accessor object arguments id getter setter hform hes =>
    refine ⟨.call (.member object getter) arguments, getProperty_eq object arguments hform,
      tame_call getter hes, fun t => ?_⟩
    simp only [Script.Expr.eval_call_member, Place.locate, hform, Place.parts, Script.evalAll,
      Slot.read, List.headD_cons, List.tail_cons]

/-- An operation on a captured place is an operation on the place.

`f'` runs behind the statements that capture the sub-expressions, in a memory that differs in
temporaries from the one behind the sub-expressions. -/
lemma Stabilizes.performs (hplace : place.Assignable c A n) {L : Lowered}
    (h : Stabilizes P c A n m m₁ place captured place')
    {f f' : Memory String V H → V × Memory String V H} (hL : Performs P c A important m₁ m' L f')
    (hf : ∀ t t₁, Frame c A m m₁ t t₁ → Apart c m m₁ (Script.evalAll P place.parts t).2 t₁ →
      Script.evalAll P place'.parts t₁ = ((Script.evalAll P place.parts t).1, t₁) →
      (important = true → (f' t₁).1 = (f t).1) ∧ Apart c m m₁ (f t).2 (f' t₁).2) :
    Performs P c A important m m' { before := captured ++ L.before, value := L.value } f where
  le := Nat.le_trans h.captures.le hL.le
  tame := hL.tame
  ident := hL.ident
  run := by
    have hm := h.captures.le
    have hm' := hL.le
    intro t
    obtain ⟨t₁, hrun₁, hapart₁, hvs⟩ := h.captures.run_all t
    obtain ⟨t₂, hrun₂, hframe₂, hapart₂, hvalue⟩ := hL.run t₁
    have hframe₁ : Frame c A m m₁ t t₁ :=
      ((Tame.evalAll_frame hplace.tame_parts m t).mono (Nat.le_refl m) hm).trans hapart₁.frame
    obtain ⟨hresult, hapart⟩ := hf t t₁ hframe₁ hapart₁ (hvs t₁ fun _ _ => rfl)
    refine ⟨t₂, hrun₁.append hrun₂, ?_, ?_, fun himp => (hvalue himp).trans (hresult himp)⟩
    · exact (hframe₁.mono (Nat.le_refl m) hm').trans (hframe₂.mono hm (Nat.le_refl m'))
    · exact (hapart.mono (Nat.le_refl m) hm').trans (hapart₂.mono hm (Nat.le_refl m'))

/-! ## Compound assignment -/

/-- Evaluates a place, reads it, evaluates the value and writes what `combine` makes of both. -/
def Place.modifying (P : Primitives V H) (c : Context) (place : Place)
    (combine : V → V → Action V H) (value : Script.Expr) (t : Memory String V H) :
    V × Memory String V H :=
  let vs := Script.evalAll P place.parts t
  (place.locate P c vs.1 t).modify P combine (value.eval P) vs.2

/-- Modifying a slot yields the same in memories that differ in temporaries. -/
lemma Apart.modify {t t' : Memory String V H} (h : Apart c m m' t t') {l : Slot String V}
    (hl : Slot.Same (Script.Off (c.Temporaries m m')) l l) (combine : V → V → Action V H)
    (hvalue : Tame c A n value) (hn : n ≤ m) :
    (l.modify P combine (value.eval P) t').1 = (l.modify P combine (value.eval P) t).1 ∧
      Apart c m m' (l.modify P combine (value.eval P) t).2
        (l.modify P combine (value.eval P) t').2 :=
  Agree.modify P h (Script.biUnique_off _) hl combine fun h₁ => Apart.eval h₁ hvalue hn

end

section

variable {P : Primitives V H} {c : Context} {A : VariableId → Prop} {n m : ℕ}
  {place : Place} {value : Script.Expr} {op : Source.BinaryOp}

/-- The script operator stands for the operation of the source operator. -/
lemma binaryOp_eq_operation (op : Source.BinaryOp) : binaryOp op = op.operation := by
  cases op <;> rfl

/-- Exactly the short-circuit operators are lazy. -/
lemma isLazy_binaryOp (op : Source.BinaryOp) : (binaryOp op).isLazy = op.isShortCircuit := by
  cases op <;> rfl

/-- An operator on evaluated operands is a single step unless it divides integers. -/
lemma apply_eq_binary {left right : Source.Expr} (h : isIntegerDivision op left right = false) :
    op.apply P left.type right.type = P.binary (binaryOp op) := by
  have hne : ¬ (op = .divide ∧ left.type.isInt32 = true ∧ right.type.isInt32 = true) := by
    rintro ⟨rfl, hl, hr⟩
    simp [isIntegerDivision, hl, hr] at h
  funext a b s
  simp only [Source.BinaryOp.apply, if_neg hne, binaryOp_eq_operation]

/-- The combined expression evaluates both operands and applies the operator. -/
lemma eval_combine (hop : op.isShortCircuit = false) (left right : Source.Expr)
    (a b : Script.Expr) (t : Memory String V H) :
    (combine op (isIntegerDivision op left right) a b).eval P t =
      (b.eval P (a.eval P t).2).2.act
        (op.apply P left.type right.type (a.eval P t).1 (b.eval P (a.eval P t).2).1) := by
  have hlazy : (binaryOp op).isLazy = false := (isLazy_binaryOp op).trans hop
  cases hdiv : isIntegerDivision op left right with
  | false =>
    rw [apply_eq_binary hdiv]
    simp [combine, Script.Expr.eval, hlazy]
  | true =>
    simp only [isIntegerDivision, Bool.and_eq_true, beq_iff_eq] at hdiv
    obtain ⟨⟨rfl, hl⟩, hr⟩ := hdiv
    simp [combine, truncate, Script.Expr.eval, binaryOp, Script.BinaryOp.isLazy,
      Source.BinaryOp.apply, Source.BinaryOp.operation, hl, hr, Memory.act]

/-- Both operands are tame, so is their combination. -/
lemma tame_combine (integerDivision : Bool) {a b : Script.Expr} (ha : Tame c A n a)
    (hb : Tame c A n b) : Tame c A n (combine op integerDivision a b) := by
  refine Tame.of_parts [a, b] (by simpa using ⟨ha, hb⟩) (fun x hx => ?_) fun x hx => ?_
  · cases integerDivision <;>
      simpa [combine, truncate, Script.Expr.mentions, Script.anyMentions] using hx
  · cases integerDivision <;>
      simpa [combine, truncate, Script.Expr.writes, Script.anyWrites] using hx

/-- A location takes the operator into the assignment. -/
lemma performs_assign {location : Script.Expr} (hc : Grounded P c) (h : place.Assignable c A n)
    (hl : place = .binding location ∨ place = .direct location) (hvalue : Tame c A n value)
    (hop : op.isShortCircuit = false) {left right : Source.Expr}
    (hdiv : isIntegerDivision op left right = false) (important : Bool) (hn : n ≤ m) :
    Performs P c A important m m { value := .assign (some (binaryOp op)) location value }
      (place.modifying P c (op.apply P left.type right.type) value) := by
  have heval : ∀ t, (Script.Expr.assign (some (binaryOp op)) location value).eval P t =
      place.modifying P c (op.apply P left.type right.type) value t := by
    intro t
    simp [Script.Expr.eval, h.slot hl, isLazy_binaryOp, hop, Place.modifying,
      apply_eq_binary hdiv]
  have htame : Tame c A n (.assign (some (binaryOp op)) location value) :=
    tame_assign _ (h.tame_location hc hl) hvalue fun x hx => h.isIdent hl hx
  refine .of_expr (htame.mono hn) (fun x hx => by cases hx) (fun t => ?_) fun _ t => ?_
  · rw [heval]
  · rw [heval]

/-- Storing the combination of the old value and `value` to a captured place modifies it. -/
lemma Stabilizes.storing_combine {m' : ℕ} {current : Script.Expr}
    (h : Stabilizes P c A n m m' place captured place')
    (hcurrent : ∀ t : Memory String V H, current.eval P t =
      (place'.locate P c (Script.evalAll P place'.parts t).1 t).read P
        (Script.evalAll P place'.parts t).2) (hop : op.isShortCircuit = false)
    (left right : Source.Expr) {vs : List V} {t : Memory String V H}
    (ht : Script.evalAll P place'.parts t = (vs, t)) :
    place'.storing P c (combine op (isIntegerDivision op left right) current value) false t =
      (place.locate P c vs t).modify P (op.apply P left.type right.type) (value.eval P) t := by
  simp only [Place.storing, eval_combine hop, hcurrent, ht, h.locate, Slot.modify,
    Bool.false_eq_true, if_false]

/-- Capturing a place, reading it, and storing the combination with the value modifies the place. -/
lemma yields_combine_store (hc : Grounded P c) (h : place.Assignable c A n)
    (hvalue : Tame c A n value) (hop : op.isShortCircuit = false) (left right : Source.Expr)
    (important : Bool) (hn : n ≤ m) :
    Yields
      (do
        let (captured, place) ← place.stabilize c
        let current ← place.load c
        let stored ← place.store c
          (combine op (isIntegerDivision op left right) current value) important
        return { stored with before := captured ++ stored.before }) m
      fun L m' => Performs P c A important m m' L
        (place.modifying P c (op.apply P left.type right.type) value) := by
  refine (yields_stabilize hc h hn).bind fun r m₁ hst => ?_
  obtain ⟨current, hload, htame, hcurrent⟩ := hst.assignable.load hc
  have hm := hst.captures.le
  simp only [hload, pure_bind]
  refine (yields_store hc hst.assignable (tame_combine _ htame (hvalue.mono (by omega)))
    important (Nat.le_refl m₁)).bind fun stored m₂ hstored => ?_
  obtain ⟨delayed, hdelayed, hperforms⟩ := hstored
  rw [funext ((hst.undelayed _).storing_eq fun hd => (hdelayed hd).1)] at hperforms
  refine .pure (hst.performs h hperforms fun t t₁ hframe hapart hvs => ?_)
  rw [hst.storing_combine hcurrent hop left right hvs, h.locate_eq hc _ hframe]
  obtain ⟨hv, hmem⟩ := hapart.modify (h.same hc _ t) (op.apply P left.type right.type) hvalue hn
  exact ⟨fun _ => hv, hmem⟩

/-- A compound assignment evaluates the place, reads it, evaluates the value and writes once. -/
lemma yields_compoundAssign (hc : Grounded P c) (h : place.Assignable c A n)
    (hvalue : Tame c A n value) (hop : op.isShortCircuit = false) (left right : Source.Expr)
    (important : Bool) (hn : n ≤ m) :
    Yields (compoundAssign c op (isIntegerDivision op left right) place value important) m
      fun L m' => Performs P c A important m m' L
        (place.modifying P c (op.apply P left.type right.type) value) := by
  have hdirect : ∀ location, place = .binding location ∨ place = .direct location →
      isIntegerDivision op left right = false →
      Yields (pure { value := .assign (some (binaryOp op)) location value }) m
        fun L m' => Performs P c A important m m' L
          (place.modifying P c (op.apply P left.type right.type) value) :=
    fun location hl hdiv => .pure (performs_assign hc h hl hvalue hop hdiv important hn)
  have hsplit := yields_combine_store hc h hvalue hop left right important hn
  cases hdiv : isIntegerDivision op left right with
  | true =>
    rw [hdiv] at hsplit
    cases place <;> exact hsplit
  | false =>
    rw [hdiv] at hsplit
    cases place with
    | binding location => exact hdirect location (Or.inl rfl) hdiv
    | direct location => exact hdirect location (Or.inr rfl) hdiv
    | accessor => exact hsplit

/-! ## Increment and decrement -/

/-- Evaluates a place and updates it: yields the value before or after the update. -/
def Place.updating (P : Primitives V H) (c : Context) (place : Place)
    (kind : Source.IncrementKind) (t : Memory String V H) : V × Memory String V H :=
  let vs := Script.evalAll P place.parts t
  let r := (place.locate P c vs.1 t).update P kind.change vs.2
  (if kind.isPost then r.1.1 else r.1.2, r.2)

/-- The value one above or one below. -/
lemma eval_stepped (kind : Source.IncrementKind) (e : Script.Expr) (t : Memory String V H) :
    (stepped kind e).eval P t =
      (e.eval P t).2.act (P.binary kind.change (e.eval P t).1 P.one) := by
  cases kind <;> rfl

/-- The stepped value is tame if the value is. -/
lemma tame_stepped (kind : Source.IncrementKind) {e : Script.Expr} (he : Tame c A n e) :
    Tame c A n (stepped kind e) := by
  refine ⟨fun k hk => ?_, fun x hx => he.writes x ?_⟩
  · simpa [stepped, Script.Expr.mentions] using he.fresh k hk
  · simpa [stepped, Script.Expr.writes] using hx

/-- A location is updated by an update expression. -/
lemma performs_increment {location : Script.Expr} (hc : Grounded P c)
    (h : place.Assignable c A n) (hl : place = .binding location ∨ place = .direct location)
    (kind : Source.IncrementKind) (important : Bool) (hn : n ≤ m) :
    Performs P c A important m m { value := incrementExpr kind location }
      (place.updating P c kind) := by
  have heval : ∀ t, (incrementExpr kind location).eval P t = place.updating P c kind t := by
    intro t
    cases kind <;>
      simp only [incrementExpr, Script.Expr.eval, h.slot hl, Place.updating] <;> rfl
  have hlocation := h.tame_location hc hl
  have htame : Tame c A n (incrementExpr kind location) := by
    refine ⟨fun k hk => ?_, fun x hx => ?_⟩
    · cases kind <;> exact hlocation.fresh k hk
    · have hor : location.isIdent x = true ∨ location.writes x = true := by
        cases kind <;>
          simpa [incrementExpr, Script.Expr.writes, Script.UnaryOp.isUpdate] using hx
      exact hor.elim (h.isIdent hl) (hlocation.writes x)
  have hident : ∀ x, incrementExpr kind location ≠ .ident x := by
    intro x hx
    cases kind <;> cases hx
  refine .of_expr (htame.mono hn) hident (fun t => ?_) fun _ t => ?_
  · rw [heval]
  · rw [heval]

/-- The old value of a captured place goes to a temporary ahead of the update.

The temporary is taken behind the statements that capture the place, so the place is still the
same when the temporary is set. -/
lemma Stabilizes.performs_old {m₁ m' : ℕ} {current : Script.Expr} {stored : Lowered}
    {kind : Source.IncrementKind} (hc : Grounded P c)
    (h : Stabilizes P c A n m m₁ place captured place')
    (hcurrent : ∀ t : Memory String V H, current.eval P t =
      (place'.locate P c (Script.evalAll P place'.parts t).1 t).read P
        (Script.evalAll P place'.parts t).2) (hkind : kind.isPost = true) (hn : n ≤ m)
    (hstored : Performs P c A false (m₁ + 1) m' stored
      (place'.storing P c (stepped kind (.ident (c.temporaryName m₁))) false)) :
    Performs P c A true m₁ m'
      { before := [.var (c.temporaryName m₁) (some current)] ++ stored.before ++
          [.expr stored.value]
        value := .ident (c.temporaryName m₁) }
      (place'.updating P c kind) := by
  have hm := h.captures.le
  have hm' := hstored.le
  have hfixed : Fixed c (fun k => k < m') (.ident (c.temporaryName m₁)) :=
    Or.inr ⟨m₁, by omega, rfl⟩
  refine ⟨by omega, hfixed.tame fun k hk => hk, fun x hx => hfixed.eq_temporary.imp
    fun k hk => by cases hx; exact hk, fun t => ?_⟩
  obtain ⟨vs, hvs⟩ : ∃ vs, Script.evalAll P place'.parts t = (vs, t) :=
    ⟨_, evalAll_fixed hc h.captures.all_fixed fun _ _ => rfl⟩
  set old := (place'.locate P c vs t).read P t with hold
  have hcur : current.eval P t = old := by rw [hcurrent, hvs]
  set t₂ := old.2.set (c.temporaryName m₁) old.1 with ht₂
  have hframe₁ : Frame c A m₁ (m₁ + 1) t t₂ := by
    have hold_vars : old.2.vars = t.vars := Slot.read_vars P _ t
    have hread : Frame c A m₁ (m₁ + 1) t old.2 := Frame.of_vars_eq hold_vars
    exact hread.trans (Frame.set_temporary m₁ old.1 old.2)
  have hvs₂ : Script.evalAll P place'.parts t₂ = (vs, t₂) := by
    rw [evalAll_fixed hc h.captures.all_fixed fun k hk => hframe₁.temporary hc (by omega), hvs]
  obtain ⟨t₃, hrun, hframe, hapart, -⟩ := hstored.run t₂
  have hstoring : place'.storing P c (stepped kind (.ident (c.temporaryName m₁))) false t₂ =
      ((t₂.act (P.binary kind.change old.1 P.one)).1,
        (place'.locate P c vs t).write P (t₂.act (P.binary kind.change old.1 P.one)).1
          (t₂.act (P.binary kind.change old.1 P.one)).2) := by
    have htemp : (Script.Expr.ident (c.temporaryName m₁)).eval P t₂ = (old.1, t₂) := by
      simp [Script.Expr.eval, hc.lookup_temporary, ht₂]
    simp only [Place.storing, hvs₂, eval_stepped, htemp, Bool.false_eq_true, if_false,
      h.assignable.locate_eq hc vs hframe₁]
  -- the update without the temporary in between
  have hupdate : place'.updating P c kind t = (old.1, (place'.locate P c vs t).write P
      (old.2.act (P.binary kind.change old.1 P.one)).1
      (old.2.act (P.binary kind.change old.1 P.one)).2) := by
    simp only [Place.updating, hvs, hkind, if_true, Slot.update, hold]
  have hset : Apart c m₁ (m₁ + 1) old.2 t₂ := Apart.set_temporary m₁ old.1 old.2
  obtain ⟨hnew, hact⟩ := Agree.act hset (P.binary kind.change old.1 P.one)
  have hwrite := Agree.write P hact (Script.biUnique_off _)
    (h.assignable.same hc vs t) (old.2.act (P.binary kind.change old.1 P.one)).1
  have hlast : (stored.value.eval P t₃).2.vars (c.temporaryName m₁) = old.1 := by
    have hvalue : (stored.value.eval P t₃).2.vars (c.temporaryName m₁) =
        t₃.vars (c.temporaryName m₁) :=
      (hstored.tame.frame m₁ t₃).temporary hc (by omega)
    have hbefore : t₃.vars (c.temporaryName m₁) = t₂.vars (c.temporaryName m₁) :=
      hframe.temporary hc (by omega)
    rw [hvalue, hbefore, ht₂, Memory.set_self]
  have hvar := Script.completes_var (P := P) (c.temporaryName m₁) current t
  rw [hcur] at hvar
  refine ⟨_, (hvar.append hrun).append (Script.completes_expr _ t₃), ?_, ?_, fun _ => ?_⟩
  · have h₁ := hframe₁.mono (Nat.le_refl m₁) hm'
    have h₂ := hframe.mono (Nat.le_succ m₁) (Nat.le_refl m')
    have h₃ := (hstored.tame.frame (P := P) m₁ t₃).mono (Nat.le_refl m₁) (by omega : m₁ ≤ m')
    exact (h₁.trans h₂).trans h₃
  · rw [hstoring, hnew] at hapart
    rw [hupdate]
    exact (Apart.mono hwrite (Nat.le_refl m₁) hm').trans
      (hapart.mono (Nat.le_succ m₁) (Nat.le_refl m'))
  · simp only [Script.Expr.eval, hc.lookup_temporary, hlast, hupdate]

/-- An increment or decrement evaluates the place, reads it once and writes it once. -/
lemma yields_incrementPlace (hc : Grounded P c) (h : place.Assignable c A n)
    (kind : Source.IncrementKind) (important : Bool) (hn : n ≤ m) :
    Yields (incrementPlace c kind place important) m fun L m' =>
      Performs P c A important m m' L (place.updating P c kind) := by
  have hsame : ∀ {m₁ : ℕ} {captured : List Script.Stmt} {place' : Place} {t t₁},
      Stabilizes P c A n m m₁ place captured place' → Frame c A m m₁ t t₁ →
      Apart c m m₁ (Script.evalAll P place.parts t).2 t₁ →
      Script.evalAll P place'.parts t₁ = ((Script.evalAll P place.parts t).1, t₁) →
      (place'.updating P c kind t₁).1 = (place.updating P c kind t).1 ∧
        Apart c m m₁ (place.updating P c kind t).2 (place'.updating P c kind t₁).2 := by
    intro m₁ captured place' t t₁ hst hframe hapart hvs
    obtain ⟨hr, hmem⟩ := Agree.update P hapart (Script.biUnique_off _)
      (h.same hc (Script.evalAll P place.parts t).1 t) kind.change
    simp only [Place.updating, hvs, hst.locate, h.locate_eq hc _ hframe, hr]
    exact ⟨trivial, hmem⟩
  cases place with
  | binding location => exact .pure (performs_increment hc h (Or.inl rfl) kind important hn)
  | direct location => exact .pure (performs_increment hc h (Or.inr rfl) kind important hn)
  | accessor object id arguments =>
    refine (yields_stabilize hc h hn).bind fun r m₁ hst => ?_
    obtain ⟨current, hload, htame, hcurrent⟩ := hst.assignable.load hc
    have hm := hst.captures.le
    simp only [hload, pure_bind]
    split
    · rename_i hkind
      simp only [Bool.and_eq_true] at hkind
      obtain ⟨hkind, rfl⟩ := hkind
      refine (yields_newTemporary c m₁).bind fun x m₂ hx => ?_
      obtain ⟨rfl, rfl⟩ := hx
      refine (yields_store hc (hst.assignable.mono (Nat.le_succ m₁))
        (tame_stepped kind (tame_temporary m₁)) false (Nat.le_refl _)).bind fun stored m₂ hstored => ?_
      obtain ⟨delayed, hdelayed, hperforms⟩ := hstored
      rw [funext ((hst.undelayed _).storing_eq fun hd => (hdelayed hd).1)] at hperforms
      have hold := hst.performs h (hst.performs_old hc hcurrent hkind hn hperforms)
        fun t t₁ hframe hapart hvs =>
          ⟨fun _ => (hsame hst hframe hapart hvs).1, (hsame hst hframe hapart hvs).2⟩
      refine .pure ?_
      simpa only [List.append_assoc] using hold
    · rename_i hkind
      refine (yields_store hc hst.assignable (tame_stepped kind htame) important
        (Nat.le_refl m₁)).bind fun stored m₂ hstored => ?_
      obtain ⟨delayed, hdelayed, hperforms⟩ := hstored
      rw [funext ((hst.undelayed _).storing_eq fun hd => (hdelayed hd).1)] at hperforms
      refine .pure (hst.performs h hperforms fun t t₁ hframe hapart hvs => ?_)
      have hstoring : r.2.storing P c (stepped kind current) false t₁ =
          (((r.2.locate P c (Script.evalAll P (Place.accessor object id arguments).parts t).1
            t₁).update P kind.change t₁).1.2, (r.2.updating P c kind t₁).2) := by
        simp only [Place.storing, eval_stepped, hcurrent, hvs, Place.updating, Slot.update,
          Bool.false_eq_true, if_false]
      obtain ⟨hr, hmem⟩ := hsame hst hframe hapart hvs
      rw [hstoring]
      refine ⟨fun himportant => ?_, hmem⟩
      have hpost : kind.isPost = false := by simpa [himportant] using hkind
      rw [← hr]
      simp [Place.updating, hvs, hpost]

end

end ScriptCompiler.Lowering
