import ScriptCompiler.Proofs.Hoisting.Places

/-!
# Storing to places

`Performs` relates the lowering of an operation on a place to what the operation does in one go:
evaluate the sub-expressions, then read and write the slot.  This module treats `store`.

Only a setter whose value is used further on can depart from the order of evaluation: identifiers
that are left standing are read late (`Place.storing`).  This makes no difference if no identifier
is assigned by a sub-expression behind it (`Place.storing_delayed`), and it does not happen if the
value is pure.  `Undelayed` puts the two together.
-/

namespace ScriptCompiler.Lowering

open Machine

variable {V H : Type*}

/-! ## Operations -/

/-- The lowered operation does what `f` does, up to temporaries from number `m` up to `m'`.  If its
result is `important`, it is the result of `f`. -/
structure Performs (P : Primitives V H) (c : Context) (A : VariableId → Prop) (important : Bool)
    (m m' : ℕ) (L : Lowered) (f : Memory String V H → V × Memory String V H) : Prop where
  le : m ≤ m'
  tame : Tame c A m' L.value
  ident : ∀ x, L.value = .ident x → ∃ k, x = c.temporaryName k
  run : ∀ t : Memory String V H, ∃ t', Script.Completes P L.before t t' ∧ Frame c A m m' t t' ∧
    Apart c m m' (f t).2 (L.value.eval P t').2 ∧
    (important = true → (L.value.eval P t').1 = (f t).1)

/-- Evaluates a place and a value and writes the value.  With `delayed`, identifiers among the
sub-expressions of the place that the value does not assign are read when the value has been
evaluated. -/
def Place.storing (P : Primitives V H) (c : Context) (place : Place) (value : Script.Expr)
    (delayed : Bool) (t : Memory String V H) : V × Memory String V H :=
  let vs := Script.evalAll P place.parts t
  let v := value.eval P vs.2
  let passed :=
    if delayed then List.zipWith (late P (fun x => !value.writes x) v.2) place.parts vs.1
    else vs.1
  (v.1, (place.locate P c passed t).write P v.1 v.2)

section

variable {P : Primitives V H} {c : Context} {A : VariableId → Prop} {n m m₁ m' : ℕ}
  {place : Place} {value : Script.Expr} {important : Bool} {es : List Script.Expr}

open Place

/-- An operation that is a single expression. -/
lemma Performs.of_expr {e : Script.Expr} {f : Memory String V H → V × Memory String V H}
    (he : Tame c A m e) (hident : ∀ x, e ≠ .ident x) (hstate : ∀ t, (e.eval P t).2 = (f t).2)
    (hvalue : important = true → ∀ t, (e.eval P t).1 = (f t).1) :
    Performs P c A important m m { value := e } f where
  le := Nat.le_refl m
  tame := he
  ident := fun x hx => absurd hx (hident x)
  run := by
    intro t
    refine ⟨t, Script.completes_nil t, Frame.of_vars_eq rfl, ?_, fun h => hvalue h t⟩
    rw [hstate t]
    exact Apart.refl _

/-- An assignment to a location is tame. -/
lemma tame_assign {location : Script.Expr} (op : Option Script.BinaryOp)
    (hlocation : Tame c A n location) (hvalue : Tame c A n value)
    (hident : ∀ x, location.isIdent x = true → ∃ id, A id ∧ c.NamesPlain id x) :
    Tame c A n (.assign op location value) where
  fresh := by
    intro k hk
    simp [Script.Expr.mentions, hlocation.fresh k hk, hvalue.fresh k hk]
  writes := by
    intro x hx
    simp only [Script.Expr.writes, Bool.or_eq_true] at hx
    rcases hx with (hx | hx) | hx
    · exact hident x hx
    · exact hlocation.writes x hx
    · exact hvalue.writes x hx

/-- A call is tame if its operands are. -/
lemma tame_call {object : Script.Expr} {arguments : List Script.Expr} (name : String)
    (h : ∀ e ∈ object :: arguments, Tame c A n e) :
    Tame c A n (.call (.member object name) arguments) :=
  Tame.of_parts _ h (fun _ hx => hx) fun _ hx => hx

/-- The identifiers left standing still have the values of their turn if nothing behind them
assigns them. -/
lemma zipWith_late_eq {keep : String → Bool}
    (hes : es.Pairwise fun e e' => ∀ x, e = .ident x → keep x = true → e'.writes x = false)
    {t t' : Memory String V H} (ht : ∀ x, .ident x ∈ es → keep x = true →
      t'.vars x = (Script.evalAll P es t).2.vars x) :
    List.zipWith (late P keep t') es (Script.evalAll P es t).1 = (Script.evalAll P es t).1 := by
  induction es generalizing t with
  | nil => rfl
  | cons e es ih =>
    rw [List.pairwise_cons] at hes
    have htail := ih hes.2 (t := (e.eval P t).2) fun x hx => ht x (List.mem_cons_of_mem e hx)
    have hlate : late P keep t' e (e.eval P t).1 = (e.eval P t).1 := by
      cases e with
      | ident x =>
        simp only [late, Script.Expr.eval]
        split
        · rename_i hkeep
          have hrest : Script.anyWrites x es = false :=
            Script.anyWrites_eq_false_iff.mpr fun e' he' => hes.1 e' he' x rfl hkeep
          have hx : t'.vars x = t.vars x :=
            (ht x List.mem_cons_self hkeep).trans (Script.evalAll_vars es hrest t)
          simp only [Script.lookup, hx]
        · rfl
      | _ => rfl
    simp only [Script.evalAll, List.zipWith_cons_cons, hlate, htail]

/-- Reading identifiers late makes no difference if no identifier among the sub-expressions is
assigned by one behind it. -/
lemma Place.storing_delayed
    (h : place.parts.Pairwise fun e e' => ∀ x, e = .ident x → value.writes x = false →
      e'.writes x = false) (delayed : Bool) (t : Memory String V H) :
    place.storing P c value delayed t = place.storing P c value false t := by
  cases delayed with
  | false => rfl
  | true =>
    have hpassed : List.zipWith
        (late P (fun x => !value.writes x) (value.eval P (Script.evalAll P place.parts t).2).2)
        place.parts (Script.evalAll P place.parts t).1 = (Script.evalAll P place.parts t).1 :=
      zipWith_late_eq (h.imp fun hab x hx hkeep => hab x hx (by simpa using hkeep))
        fun x _ hkeep => value.eval_vars (by simpa using hkeep) _
    simp only [Place.storing, if_true, hpassed, Bool.false_eq_true, if_false]

/-- Nothing is read late that has changed since its turn: the value is pure, so that the setter is
called in place, or an identifier among the sub-expressions that is assigned by one behind it is
assigned by the value too, ahead of which it is captured. -/
def Undelayed (es : List Script.Expr) (value : Script.Expr) : Prop :=
  value.isPure = true ∨
    es.Pairwise fun e e' => ∀ x, e = .ident x → value.writes x = false → e'.writes x = false

/-- Fixed sub-expressions assign nothing. -/
lemma Undelayed.of_fixed {K : ℕ → Prop} (hK : ∀ k, K k → k < n) (h : ∀ e ∈ es, Fixed c K e)
    (value : Script.Expr) : Undelayed es value := by
  refine .inr (List.pairwise_iff_forall_sublist.mpr fun {e e'} hsub x _ _ => ?_)
  have he' : e' ∈ es := hsub.subset (by simp)
  have htame : Tame c (fun _ => False) n e' := (h e' he').tame hK
  exact htame.not_writes fun _ hA => hA.elim

/-- Reading identifiers late makes no difference if nothing is delayed. -/
lemma Undelayed.storing_eq (h : Undelayed place.parts value) {delayed : Bool}
    (hdelayed : delayed = true → value.isPure = false) (t : Memory String V H) :
    place.storing P c value delayed t = place.storing P c value false t := by
  cases delayed with
  | false => rfl
  | true =>
    rcases h with hpure | hpairwise
    · rw [hdelayed rfl] at hpure
      cases hpure
    · exact Place.storing_delayed hpairwise true t

/-- Identifiers left standing have the same values in memories that differ in temporaries which
these are not. -/
lemma zipWith_late_apart {keep : String → Bool} (hes : ∀ e ∈ es, Tame c A n e) (hn : n ≤ m)
    {t t' : Memory String V H} (h : Apart c m m' t t') (vs : List V) :
    List.zipWith (late P keep t') es vs = List.zipWith (late P keep t) es vs := by
  induction es generalizing vs with
  | nil => rfl
  | cons e es ih =>
    cases vs with
    | nil => rfl
    | cons v vs =>
      have hlate : late P keep t' e v = late P keep t e v := by
        cases e with
        | ident x =>
          have hx := (h.eval (P := P) (hes _ List.mem_cons_self) hn).1
          simp only [Script.Expr.eval] at hx
          simp only [late, hx]
        | _ => rfl
      have htail := ih (fun e' he' => hes e' (List.mem_cons_of_mem e he')) vs
      rw [List.zipWith_cons_cons, List.zipWith_cons_cons, hlate, htail]

/-- What a place and a value write is what their evaluation writes. -/
lemma Place.Assignable.frame_value (h : place.Assignable c A n) (hvalue : Tame c A n value)
    (k : ℕ) (t : Memory String V H) :
    Frame c A k k t (value.eval P (Script.evalAll P place.parts t).2).2 :=
  (Tame.evalAll_frame h.tame_parts k t).trans (hvalue.frame k _)

/-! ## Storing -/

/-- A location takes the value by an assignment. -/
lemma performs_set {location : Script.Expr} (hc : Grounded P c) (h : place.Assignable c A n)
    (hl : place = .binding location ∨ place = .direct location) (hvalue : Tame c A n value)
    (hn : n ≤ m) :
    Performs P c A important m m { value := .set location value }
      (place.storing P c value false) := by
  have heval : ∀ t, (Script.Expr.set location value).eval P t =
      place.storing P c value false t := by
    intro t
    simp only [Script.Expr.set, Script.Expr.eval, h.slot hl, Place.storing, Bool.false_eq_true,
      if_false]
  have htame : Tame c A n (.set location value) :=
    tame_assign none (h.tame_location hc hl) hvalue fun x hx => h.isIdent hl hx
  refine .of_expr (htame.mono hn) (fun x hx => by cases hx) (fun t => ?_) fun _ t => ?_
  · rw [heval]
  · rw [heval]

section Setter

variable {object : Script.Expr} {arguments : List Script.Expr} {id : MemberId}
  {getter setter : String}

/-- The call of a setter on all its operands writes the slot behind it. -/
lemma eval_setter (hform : c.naming.form? c.program id = some (.property getter setter))
    (object value : Script.Expr) (arguments : List Script.Expr) (t t' : Memory String V H) :
    ((Script.Expr.call (.member object setter) (arguments ++ [value])).eval P t).2 =
      (Place.locate P c (.accessor object id arguments)
        (Script.evalAll P (object :: arguments) t).1 t').write P
          (value.eval P (Script.evalAll P (object :: arguments) t).2).1
          (value.eval P (Script.evalAll P (object :: arguments) t).2).2 := by
  simp only [Script.Expr.eval_call_member, Script.evalAll_append, Place.locate, hform,
    Script.evalAll, Slot.write, List.headD_cons, List.tail_cons]

/-- A setter whose value is not used further on is called in place. -/
lemma performs_setter (hform : c.naming.form? c.program id = some (.property getter setter))
    (hes : ∀ e ∈ object :: arguments, Tame c A n e) (hvalue : Tame c A n value) (hn : n ≤ m) :
    Performs P c A false m m { value := .call (.member object setter) (arguments ++ [value]) }
      (Place.storing P c (.accessor object id arguments) value false) := by
  have htame : Tame c A n (.call (.member object setter) (arguments ++ [value])) := by
    refine tame_call setter fun e he => ?_
    rcases List.mem_cons.mp he with rfl | he
    · exact hes e List.mem_cons_self
    · rcases List.mem_append.mp he with he | he
      · exact hes e (List.mem_cons_of_mem object he)
      · rw [List.mem_singleton.mp he]
        exact hvalue
  exact .of_expr (htame.mono hn) (fun x hx => by cases hx)
    (fun t => eval_setter hform object value arguments t t) fun h => by cases h

/-- A setter is called ahead of a value that is fixed. -/
lemma performs_setter_fixed (hc : Grounded P c)
    (hform : c.naming.form? c.program id = some (.property getter setter))
    (hes : ∀ e ∈ object :: arguments, Tame c A n e) (hvalue : Tame c A n value)
    (hfixed : Fixed c (· < n) value) (hn : n ≤ m) :
    Performs P c A important m m
      { before := [.expr (.call (.member object setter) (arguments ++ [value]))], value }
      (Place.storing P c (.accessor object id arguments) value false) where
  le := Nat.le_refl m
  tame := hvalue.mono hn
  ident := by
    rintro x rfl
    exact hfixed.eq_temporary
  run := by
    intro t
    have hplace : (Place.accessor object id arguments).Assignable c A n := .accessor hform hes
    have hstate : ((Script.Expr.call (.member object setter) (arguments ++ [value])).eval P t).2 =
        (Place.storing P c (.accessor object id arguments) value false t).2 :=
      eval_setter hform object value arguments t t
    have hvars : (Place.storing P c (.accessor object id arguments) value false t).2.vars =
        (value.eval P (Script.evalAll P (object :: arguments) t).2).2.vars := by
      simp [Place.storing, Place.parts, Place.locate, hform, Slot.write]
    have hsame : ∀ u : Memory String V H, value.eval P u = ((value.eval P u).1, u) :=
      fun u => hfixed.eval hc fun _ _ => rfl
    refine ⟨_, Script.completes_expr _ t, ?_, ?_, fun _ => ?_⟩
    · rw [hstate]
      intro x hx hk
      rw [hvars]
      exact hplace.frame_value hvalue m t x hx hk
    · rw [hstate, hsame]
      exact Apart.refl _
    · rw [hstate, hfixed.eval hc (t := (Script.evalAll P (object :: arguments) t).2)]
      · rfl
      · intro k _
        rw [hvars, hsame]

/-- A setter is called on captured operands.

The call reads the identifiers left standing behind the value.  Everything else was captured when
its turn came. -/
lemma performs_setter_captured (hc : Grounded P c)
    (hform : c.naming.form? c.program id = some (.property getter setter))
    (hes : ∀ e ∈ object :: arguments, Tame c A n e) (hvalue : Tame c A n value)
    {first captured : Lowered} {others : Operands}
    (h : Captures P c (fun x => !value.writes x) n m m₁ (object :: arguments)
      ⟨first.before ++ others.before, first.value :: others.values⟩)
    (h' : Captures P c (fun _ => false) n m₁ m' [value] ⟨captured.before, [captured.value]⟩)
    (hn : n ≤ m) :
    Performs P c A important m m'
      { before := first.before ++ others.before ++ captured.before ++
          [.expr (.call (.member first.value setter) (others.values ++ [captured.value]))]
        value := captured.value }
      (Place.storing P c (.accessor object id arguments) value true) := by
  have hm := h.le
  have hm' := h'.le
  have hplace : (Place.accessor object id arguments).Assignable c A n := .accessor hform hes
  have hfixed := h'.all_fixed _ (List.mem_singleton_self captured.value)
  refine ⟨by omega, hfixed.tame fun k hk => by omega, fun x hx => ?_, fun t => ?_⟩
  · have hx : captured.value = .ident x := hx
    rw [hx] at hfixed
    exact hfixed.eq_temporary
  · obtain ⟨t₁, hrun₁, hapart₁, hvs⟩ := h.run t
    obtain ⟨t₂, hrun₂, hapart₂, hv⟩ := h'.run_one t₁
    obtain ⟨hval, hapart⟩ := hapart₁.eval (P := P) hvalue hn
    -- from the value to the call only temporaries are written
    have hapart' : Apart c m m'
        (value.eval P (Script.evalAll P (object :: arguments) t).2).2 t₂ :=
      (hapart.mono (Nat.le_refl m) hm').trans (hapart₂.mono hm (Nat.le_refl m'))
    have htemps : ∀ k, k < n ∨ m ≤ k ∧ k < m₁ →
        t₂.vars (c.temporaryName k) = t₁.vars (c.temporaryName k) := by
      intro k hk
      rw [hapart₂.temporary_eq (by omega)]
      exact value.eval_vars (hvalue.not_writes fun i _ hi => hc.not_temporary k hi.names rfl) t₁
    have hframe : Frame c A m m' t t₂ :=
      ((hplace.frame_value hvalue m t).mono (Nat.le_refl m) (by omega)).trans hapart'.frame
    have hcall : ((Script.Expr.call (.member first.value setter)
        (others.values ++ [captured.value])).eval P t₂).2 =
          (Place.locate P c (.accessor object id arguments)
            (List.zipWith (late P (fun x => !value.writes x) t₂) (object :: arguments)
              (Script.evalAll P (object :: arguments) t).1) t).write P
              (value.eval P t₁).1 t₂ := by
      rw [eval_setter hform first.value captured.value others.values t₂ t, hvs t₂ htemps,
        hv t₂ fun _ _ => rfl]
      rfl
    have hvars : ∀ k, ((Script.Expr.call (.member first.value setter)
        (others.values ++ [captured.value])).eval P t₂).2.vars k = t₂.vars k := by
      intro k
      rw [hcall]
      simp [Place.locate, hform, Slot.write]
    refine ⟨_, (hrun₁.append hrun₂).append (Script.completes_expr _ t₂), ?_, ?_, fun _ => ?_⟩
    · intro x hx hk
      rw [hvars]
      exact hframe x hx hk
    · rw [hv _ fun k _ => hvars _, hcall, zipWith_late_apart hes hn hapart', hval]
      exact hapart'.write P (Script.biUnique_off _) (hplace.same hc _ t) _
    · rw [hv _ fun k _ => hvars _, hval]
      rfl

end Setter

/-- Storing evaluates the place and the value and writes the value.  Identifiers are read late at
most if the value goes through a setter, is used further on and is not pure. -/
lemma yields_store (hc : Grounded P c) (h : place.Assignable c A n) (hvalue : Tame c A n value)
    (important : Bool) (hn : n ≤ m) :
    Yields (place.store c value important) m fun L m' => ∃ delayed : Bool,
      (delayed = true → value.isPure = false ∧ important = true ∧ ∃ object id arguments,
        place = .accessor object id arguments) ∧
      Performs P c A important m m' L (place.storing P c value delayed) := by
  have hlocation : ∀ location, place = .binding location ∨ place = .direct location →
      Yields (pure { value := .set location value }) m fun L m' => ∃ delayed : Bool,
        (delayed = true → value.isPure = false ∧ important = true ∧ ∃ object id arguments,
          place = .accessor object id arguments) ∧
        Performs P c A important m m' L (place.storing P c value delayed) := fun location hl =>
    Yields.pure ⟨false, (fun h => by cases h), performs_set hc h hl hvalue hn⟩
  cases h with
  | plain => exact hlocation _ (Or.inl rfl)
  | contained => exact hlocation _ (Or.inl rfl)
  | member => exact hlocation _ (Or.inr rfl)
  | index => exact hlocation _ (Or.inr rfl)
  | @accessor object arguments id getter setter hform hes =>
    simp only [Place.store, setterName_eq hform, pure_bind]
    cases important with
    | false =>
      exact .pure ⟨false, (fun h => by cases h), performs_setter hform hes hvalue hn⟩
    | true =>
      refine (yields_isStable hvalue m).bind fun stable m₁ hstable => ?_
      obtain ⟨rfl, hstable, hpure⟩ := hstable
      cases stable with
      | true =>
        exact .pure ⟨false, (fun h => by cases h),
          performs_setter_fixed hc hform hes hvalue (hstable rfl) hn⟩
      | false =>
        have hobject := hes object List.mem_cons_self
        have harguments := fun e he => hes e (List.mem_cons_of_mem object he)
        refine (yields_spillBefore hc value hobject m₁).bind fun first m₂ h₁ => ?_
        refine (yields_spillAllBefore hc value arguments harguments
          (Nat.le_trans hn h₁.le)).bind fun others m₃ h₂ => ?_
        refine (yields_spill hc hvalue (fun _ _ => rfl) m₃).bind fun captured m₄ h₃ => ?_
        exact .pure ⟨true, fun _ => ⟨hpure rfl, rfl, object, id, arguments, rfl⟩,
          performs_setter_captured hc hform hes hvalue (h₁.cons hc h₂ harguments hn) h₃ hn⟩

end

end ScriptCompiler.Lowering
