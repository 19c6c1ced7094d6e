import ScriptCompiler.Proofs.Hoisting.Agreement

/-!
# Capturing values in temporaries

`Yields` reasons about a step of lowering that reports nothing: all it does to the state is to take
temporaries.

The statements that capture expressions evaluate these in turn, so their effects are those of
evaluating the expressions (`Captures.run`), and what they leave in place of an expression is
`Fixed`: it yields the captured value in every later memory that keeps the temporaries.  An
identifier that is left standing is the exception; it yields the value that it has when it is read
(`late`).
-/

namespace ScriptCompiler.Lowering

open Machine

/-! ## Steps that report nothing -/

/-- From every state that stands at temporary `n`, the step yields a result, and a next temporary,
for which `Q` holds.  It changes nothing else. -/
def Yields {α : Type} (step : Lower α) (n : ℕ) (Q : α → ℕ → Prop) : Prop :=
  ∀ st : State, st.next = n → ∃ a n', step st = (a, { st with next := n' }) ∧ Q a n'

section

variable {α β : Type} {n : ℕ} {R : α → ℕ → Prop}

/-- A result that is there already. -/
lemma Yields.pure {a : α} (h : R a n) : Yields (pure a) n R := by
  rintro st rfl
  exact ⟨a, st.next, rfl, h⟩

/-- One step after another. -/
lemma Yields.bind {Q : β → ℕ → Prop} {step : Lower α} {next : α → Lower β} (h : Yields step n R)
    (hnext : ∀ a n', R a n' → Yields (next a) n' Q) : Yields (step >>= next) n Q := by
  intro st hst
  obtain ⟨a, n₁, hstep, hR⟩ := h st hst
  obtain ⟨b, n₂, hb, hQ⟩ := hnext a n₁ hR { st with next := n₁ } rfl
  refine ⟨b, n₂, ?_, hQ⟩
  change next (step st).1 (step st).2 = _
  rw [hstep]
  exact hb

/-- A weaker property of the result. -/
lemma Yields.mono {Q : α → ℕ → Prop} {step : Lower α} (h : Yields step n R)
    (hQ : ∀ a n', R a n' → Q a n') : Yields step n Q := by
  intro st hst
  obtain ⟨a, n', hstep, hR⟩ := h st hst
  exact ⟨a, n', hstep, hQ a n' hR⟩

/-- The result comes from running the step somewhere. -/
lemma Yields.origin {step : Lower α} (h : Yields step n R) :
    Yields step n fun a n' => R a n' ∧ ∃ st, (step st).1 = a := by
  intro st hst
  obtain ⟨a, n', hstep, hR⟩ := h st hst
  exact ⟨a, n', hstep, hR, st, by rw [hstep]⟩

/-- A new temporary is the one with the next number. -/
lemma yields_newTemporary (c : Context) (n : ℕ) :
    Yields (newTemporary c) n fun x n' => x = c.temporaryName n ∧ n' = n + 1 := by
  rintro st rfl
  exact ⟨c.temporaryName st.next, st.next + 1, rfl, rfl, rfl⟩

end

variable {V H : Type*}

/-! ## Memories that differ in temporaries -/

/-- The temporaries with numbers from `m` up to `m'`. -/
def Context.Temporaries (c : Context) (m m' : ℕ) (x : String) : Prop :=
  ∃ k, m ≤ k ∧ k < m' ∧ x = c.temporaryName k

/-- The memories differ in temporaries from number `m` up to `m'` at most. -/
abbrev Apart (c : Context) (m m' : ℕ) (t t' : Memory String V H) : Prop :=
  Agree (Script.Off (c.Temporaries m m')) t t'

section

variable {P : Primitives V H} {c : Context} {A : VariableId → Prop} {n m m₁ m₂ m' : ℕ}
  {e : Script.Expr} {es : List Script.Expr} {t t₁ t' : Memory String V H}

/-- No two memories are closer than one and the same. -/
lemma Apart.refl (t : Memory String V H) : Apart c m m' t t where
  store := rfl
  vars := fun h => by rw [h.1]

/-- An identifier outside the range has the same value. -/
lemma Apart.vars_eq (h : Apart c m m' t t') {x : String} (hx : ¬ c.Temporaries m m' x) :
    t'.vars x = t.vars x :=
  h.vars ⟨rfl, hx⟩

/-- A temporary outside the range has the same value. -/
lemma Apart.temporary_eq (h : Apart c m m' t t') {k : ℕ} (hk : k < m ∨ m' ≤ k) :
    t'.vars (c.temporaryName k) = t.vars (c.temporaryName k) := by
  refine h.vars_eq ?_
  rintro ⟨j, h₁, h₂, hj⟩
  have hkj : k = j := c.temporaryName_injective hj
  omega

/-- A wider range of temporaries. -/
lemma Apart.mono (h : Apart c m₁ m₂ t t') (hm : m ≤ m₁) (hm' : m₂ ≤ m') : Apart c m m' t t' where
  store := h.store
  vars := by
    rintro x y ⟨rfl, hx⟩
    refine h.vars_eq ?_
    rintro ⟨k, h₁, h₂, hk⟩
    exact hx ⟨k, by omega, by omega, hk⟩

/-- Memories with a third one in between. -/
lemma Apart.trans (h : Apart c m m' t t₁) (h' : Apart c m m' t₁ t') : Apart c m m' t t' where
  store := h'.store.trans h.store
  vars := by
    rintro x y ⟨rfl, hx⟩
    exact (h'.vars_eq hx).trans (h.vars_eq hx)

/-- Giving a temporary a value. -/
lemma Apart.set_temporary (k : ℕ) (v : V) (t : Memory String V H) :
    Apart c k (k + 1) t (t.set (c.temporaryName k) v) where
  store := rfl
  vars := by
    rintro x y ⟨rfl, hx⟩
    refine Memory.set_of_ne _ ?_ v
    rintro rfl
    exact hx ⟨k, Nat.le_refl k, Nat.lt_succ_self k, rfl⟩

/-- Such memories match the same memory of the source. -/
lemma Matches.apart {g : String → V} {s : Memory VariableId V H} (hs : Matches c g s t)
    (hc : Grounded P c) (h : Apart c m m' t t') : Matches c g s t' := by
  refine hs.congr hc h.store fun x hx => h.vars_eq ?_
  rintro ⟨k, -, -, hk⟩
  exact hx k hk

/-- Only temporaries were written. -/
lemma Apart.frame (h : Apart c m m' t t') : Frame c A m m' t t' := by
  intro x _ hx
  refine h.vars_eq ?_
  rintro ⟨k, h₁, h₂, hk⟩
  exact hx k h₁ h₂ hk

/-- An expression that mentions none of the temporaries yields the same value. -/
lemma Apart.eval (h : Apart c m m' t t') (he : Tame c A n e) (hn : n ≤ m) :
    (e.eval P t').1 = (e.eval P t).1 ∧ Apart c m m' (e.eval P t).2 (e.eval P t').2 := by
  refine e.eval_congr ?_ h
  rintro _ ⟨k, hk, -, rfl⟩
  exact he.fresh k (Nat.le_trans hn hk)

/-- Expressions that mention none of the temporaries yield the same values. -/
lemma Apart.evalAll (h : Apart c m m' t t') (hes : ∀ e ∈ es, Tame c A n e) (hn : n ≤ m) :
    (Script.evalAll P es t').1 = (Script.evalAll P es t).1 ∧
      Apart c m m' (Script.evalAll P es t).2 (Script.evalAll P es t').2 := by
  refine Script.evalAll_congr es ?_ h
  rintro _ ⟨k, hk, -, rfl⟩
  exact Script.anyMentions_eq_false_iff.mpr fun e he => (hes e he).fresh k (Nat.le_trans hn hk)

/-- Evaluating tame expressions writes no temporary. -/
lemma Tame.evalAll_temporary (hc : Grounded P c) (hes : ∀ e ∈ es, Tame c A n e) (k : ℕ)
    (t : Memory String V H) :
    (Script.evalAll P es t).2.vars (c.temporaryName k) = t.vars (c.temporaryName k) := by
  refine Script.evalAll_vars es (Script.anyWrites_eq_false_iff.mpr fun e he => ?_) t
  exact (hes e he).not_writes fun id _ hid => hc.not_temporary k hid.names rfl

/-- Evaluating tame expressions writes nothing but variables. -/
lemma Tame.evalAll_frame (hes : ∀ e ∈ es, Tame c A n e) (k : ℕ) (t : Memory String V H) :
    Frame c A k k t (Script.evalAll P es t).2 := fun _ hx _ =>
  Script.evalAll_vars es (Script.anyWrites_eq_false_iff.mpr fun e he => (hes e he).not_writes hx) t

end

/-! ## Values that stay -/

/-- A value that cannot change any more: a pure expression or one of the temporaries `K`. -/
def Fixed (c : Context) (K : ℕ → Prop) (e : Script.Expr) : Prop :=
  e.isPure = true ∨ ∃ k, K k ∧ e = .ident (c.temporaryName k)

section

variable {P : Primitives V H} {c : Context} {A : VariableId → Prop} {K K' : ℕ → Prop} {n : ℕ}
  {e : Script.Expr} {t t' : Memory String V H}

/-- More temporaries. -/
lemma Fixed.mono (h : Fixed c K e) (hK : ∀ k, K k → K' k) : Fixed c K' e := by
  rcases h with h | ⟨k, hk, rfl⟩
  · exact .inl h
  · exact .inr ⟨k, hK k hk, rfl⟩

/-- A pure expression has the same value everywhere. -/
lemma eval_of_isPure (h : e.isPure = true) (t t' : Memory String V H) :
    e.eval P t' = ((e.eval P t).1, t') := by
  cases e <;> first | rfl | cases h

/-- A fixed value is the same in all memories that agree on the temporaries. -/
lemma Fixed.eval (hc : Grounded P c) (h : Fixed c K e)
    (ht : ∀ k, K k → t'.vars (c.temporaryName k) = t.vars (c.temporaryName k)) :
    e.eval P t' = ((e.eval P t).1, t') := by
  rcases h with h | ⟨k, hk, rfl⟩
  · exact eval_of_isPure h t t'
  · simp only [Script.Expr.eval, hc.lookup_temporary, ht k hk]

/-- Fixed values are the same in all memories that agree on the temporaries. -/
lemma evalAll_fixed (hc : Grounded P c) {es : List Script.Expr} (hes : ∀ e ∈ es, Fixed c K e)
    (ht : ∀ k, K k → t'.vars (c.temporaryName k) = t.vars (c.temporaryName k)) :
    Script.evalAll P es t' = ((Script.evalAll P es t).1, t') := by
  induction es with
  | nil => rfl
  | cons e es ih =>
    have he := hes e List.mem_cons_self
    have hsame : e.eval P t = ((e.eval P t).1, t) := he.eval hc fun _ _ => rfl
    have htail := ih fun e' he' => hes e' (List.mem_cons_of_mem e he')
    simp only [Script.evalAll, he.eval hc ht, htail]
    rw [congrArg Prod.snd hsame]

/-- A fixed value assigns nothing and mentions no further temporary. -/
lemma Fixed.tame (h : Fixed c K e) (hK : ∀ k, K k → k < n) : Tame c A n e := by
  rcases h with h | ⟨k, hk, rfl⟩
  · cases e <;> first
      | exact ⟨fun _ _ => rfl, fun _ hx => by cases hx⟩
      | cases h
  · refine ⟨fun j hj => ?_, fun _ hx => by cases hx⟩
    have hne : c.temporaryName k ≠ c.temporaryName j := fun hkj => by
      have := c.temporaryName_injective hkj
      have := hK k hk
      omega
    simpa [Script.Expr.mentions] using hne

/-- A temporary is a tame value. -/
lemma tame_temporary (k : ℕ) : Tame c A (k + 1) (.ident (c.temporaryName k)) := by
  have hfixed : Fixed c (· = k) (.ident (c.temporaryName k)) := Or.inr ⟨k, rfl, rfl⟩
  exact hfixed.tame fun j hj => by omega

/-- A fixed value that is an identifier is a temporary. -/
lemma Fixed.eq_temporary {x : String} (h : Fixed c K (.ident x)) : ∃ k, x = c.temporaryName k := by
  rcases h with h | ⟨k, -, h⟩
  · cases h
  · cases h
    exact ⟨k, rfl⟩

/-- What is stable is fixed, and what is pure is stable. -/
lemma yields_isStable (he : Tame c A n e) (m : ℕ) :
    Yields (isStable c e) m fun b m' => m' = m ∧ (b = true → Fixed c (· < n) e) ∧
      (b = false → e.isPure = false) := by
  rintro st rfl
  cases e with
  | ident x =>
    refine ⟨st.isTemporary c x, st.next, rfl, rfl, fun h => ?_, fun _ => rfl⟩
    simp only [State.isTemporary, List.any_eq_true, beq_iff_eq] at h
    obtain ⟨k, -, rfl⟩ := h
    refine .inr ⟨k, ?_, rfl⟩
    by_contra hk
    have hfresh := he.fresh k (Nat.le_of_not_lt hk)
    simp [Script.Expr.mentions] at hfresh
  | _ => exact ⟨_, st.next, rfl, rfl, Or.inl, id⟩

end

/-! ## Captured lists -/

/-- The value that stands for `e` in the memory `t`, if `e` had the value `v` when its turn came:
identifiers that are kept are read in `t`. -/
def late (P : Primitives V H) (keep : String → Bool) (t : Memory String V H) (e : Script.Expr)
    (v : V) : V :=
  match e with
  | .ident x => if keep x then Script.lookup P t x else v
  | _ => v

/-- `operands` stand for `es`.  Their statements evaluate `es` in turn and take temporaries from
number `m` up to `m'`; the values are fixed from then on, identifiers that are kept apart. -/
structure Captures (P : Primitives V H) (c : Context) (keep : String → Bool) (n m m' : ℕ)
    (es : List Script.Expr) (operands : Operands) : Prop where
  le : m ≤ m'
  length : operands.values.length = es.length
  fixed : ∀ e ∈ operands.values,
    Fixed c (fun k => k < n ∨ m ≤ k ∧ k < m') e ∨ ∃ x, keep x = true ∧ e = .ident x ∧ e ∈ es
  run : ∀ t : Memory String V H, ∃ t', Script.Completes P operands.before t t' ∧
    Apart c m m' (Script.evalAll P es t).2 t' ∧
    ∀ t'', (∀ k, k < n ∨ m ≤ k ∧ k < m' →
        t''.vars (c.temporaryName k) = t'.vars (c.temporaryName k)) →
      Script.evalAll P operands.values t'' =
        (List.zipWith (late P keep t'') es (Script.evalAll P es t).1, t'')

section

variable {P : Primitives V H} {c : Context} {A : VariableId → Prop} {keep : String → Bool}
  {n m m₁ m' : ℕ} {e : Script.Expr} {es : List Script.Expr}

/-- Without kept identifiers the values are those of the turn. -/
lemma zipWith_late_false (t : Memory String V H) (es : List Script.Expr) (vs : List V)
    (h : vs.length = es.length) : List.zipWith (late P (fun _ => false) t) es vs = vs := by
  induction es generalizing vs with
  | nil => simpa using h
  | cons e es ih =>
    obtain ⟨v, vs, rfl⟩ := List.exists_cons_of_length_eq_add_one h
    have hlate : late P (fun _ => false) t e v = v := by cases e <;> rfl
    rw [List.zipWith_cons_cons, hlate, ih vs (by simpa using h)]

/-- Nothing to capture. -/
lemma Captures.nil : Captures P c keep n m m [] {} where
  le := Nat.le_refl m
  length := rfl
  fixed := by simp
  run := fun t => ⟨t, Script.completes_nil t, Apart.refl t, fun _ _ => rfl⟩

/-- An expression that is fixed already needs no statement. -/
lemma Captures.of_fixed (hc : Grounded P c) (h : Fixed c (· < n) e) :
    Captures P c keep n m m [e] ⟨[], [e]⟩ where
  le := Nat.le_refl m
  length := rfl
  fixed := by
    intro e' he'
    rw [List.mem_singleton.mp he']
    exact .inl (h.mono fun k hk => Or.inl hk)
  run := by
    intro t
    have hsame : ∀ t' : Memory String V H, (∀ k, k < n →
        t'.vars (c.temporaryName k) = t.vars (c.temporaryName k)) →
        e.eval P t' = ((e.eval P t).1, t') := fun t' ht' => h.eval hc ht'
    have ht : (e.eval P t).2 = t := congrArg Prod.snd (hsame t fun _ _ => rfl)
    refine ⟨t, Script.completes_nil t, ?_, fun t'' ht'' => ?_⟩
    · simp only [Script.evalAll, ht]
      exact Apart.refl t
    · have hval := hsame t'' fun k hk => ht'' k (Or.inl hk)
      have hlate : late P keep t'' e (e.eval P t).1 = (e.eval P t).1 := by
        cases e with
        | ident x =>
          simp only [Script.Expr.eval, Prod.mk.injEq, and_true] at hval
          simp [late, Script.Expr.eval, hval]
        | _ => rfl
      simp only [Script.evalAll, hval, List.zipWith_cons_cons, List.zipWith_nil_right, hlate]

/-- A new temporary takes the value of the expression. -/
lemma Captures.of_temporary (hc : Grounded P c) (hkeep : ∀ x, e = .ident x → keep x = false) :
    Captures P c keep n m (m + 1) [e]
      ⟨[.var (c.temporaryName m) (some e)], [.ident (c.temporaryName m)]⟩ where
  le := Nat.le_succ m
  length := rfl
  fixed := by
    intro e' he'
    rw [List.mem_singleton.mp he']
    exact .inl (Or.inr ⟨m, Or.inr ⟨Nat.le_refl m, Nat.lt_succ_self m⟩, rfl⟩)
  run := by
    intro t
    refine ⟨_, Script.completes_var _ e t, Apart.set_temporary m _ _, fun t'' ht'' => ?_⟩
    have hval := ht'' m (Or.inr ⟨Nat.le_refl m, Nat.lt_succ_self m⟩)
    rw [Memory.set_self] at hval
    have hlate : late P keep t'' e (e.eval P t).1 = (e.eval P t).1 := by
      cases e with
      | ident x => simp [late, hkeep x rfl]
      | _ => rfl
    simp only [Script.evalAll, Script.Expr.eval, hc.lookup_temporary, hval,
      List.zipWith_cons_cons, List.zipWith_nil_right, hlate]

/-- An identifier that is kept needs no statement. -/
lemma Captures.of_kept {x : String} (hkeep : keep x = true) :
    Captures P c keep n m m [.ident x] ⟨[], [.ident x]⟩ where
  le := Nat.le_refl m
  length := rfl
  fixed := by
    intro e' he'
    rw [List.mem_singleton.mp he']
    exact .inr ⟨x, hkeep, rfl, List.mem_singleton_self _⟩
  run := by
    intro t
    refine ⟨t, Script.completes_nil t, Apart.refl t, fun t'' _ => ?_⟩
    simp [Script.evalAll, Script.Expr.eval, late, hkeep]

/-- One expression is captured after the other.

The statements for `es` run in a memory where the temporaries for `e` are set.  They do not mention
these, so they evaluate `es` as if right after `e`. -/
lemma Captures.cons (hc : Grounded P c) {first : Lowered} {others : Operands}
    (h : Captures P c keep n m m₁ [e] ⟨first.before, [first.value]⟩)
    (h' : Captures P c keep n m₁ m' es others) (hes : ∀ e ∈ es, Tame c A n e) (hn : n ≤ m) :
    Captures P c keep n m m' (e :: es)
      ⟨first.before ++ others.before, first.value :: others.values⟩ where
  le := Nat.le_trans h.le h'.le
  length := by simp [h'.length]
  fixed := by
    have hm := h.le
    have hm' := h'.le
    rintro e' (_ | ⟨_, he'⟩)
    · rcases h.fixed _ (List.mem_singleton_self _) with hfix | ⟨x, hx, hv, hmem⟩
      · exact .inl (hfix.mono fun k hk => by omega)
      · exact .inr ⟨x, hx, hv, by simp [List.mem_singleton.mp hmem]⟩
    · rcases h'.fixed e' he' with hfix | ⟨x, hx, hv, hmem⟩
      · exact .inl (hfix.mono fun k hk => by omega)
      · exact .inr ⟨x, hx, hv, List.mem_cons_of_mem _ hmem⟩
  run := by
    have hm := h.le
    have hm' := h'.le
    intro t
    obtain ⟨t₁, hrun, hapart, hfix⟩ := h.run t
    obtain ⟨t', hrun', hapart', hfix'⟩ := h'.run t₁
    obtain ⟨hvs, hrest⟩ := hapart.evalAll hes hn (P := P)
    refine ⟨t', hrun.append hrun', ?_, fun t'' ht'' => ?_⟩
    · exact (hrest.mono (Nat.le_refl m) hm').trans (hapart'.mono hm (Nat.le_refl m'))
    · have hfirst : ∀ k, k < n ∨ m ≤ k ∧ k < m₁ →
          t''.vars (c.temporaryName k) = t₁.vars (c.temporaryName k) := by
        intro k hk
        rw [ht'' k (by omega), hapart'.temporary_eq (by omega),
          Tame.evalAll_temporary hc hes]
      have hone := hfix t'' hfirst
      have hall := hfix' t'' fun k hk => ht'' k (by omega)
      simp only [Script.evalAll, List.zipWith_cons_cons, List.zipWith_nil_right,
        Prod.mk.injEq, List.cons.injEq, and_true] at hone hvs hrest ⊢
      rw [Prod.ext_iff] at hall
      simp only [hone.1, hone.2, hall.1, hall.2, hvs, and_self]

/-- A value is captured unless it is fixed. -/
lemma yields_spill (hc : Grounded P c) (he : Tame c A n e)
    (hkeep : ∀ x, e = .ident x → keep x = false) (m : ℕ) :
    Yields (spill c e) m fun L m' =>
      Captures P c keep n m m' [e] ⟨L.before, [L.value]⟩ := by
  refine (yields_isStable he m).bind fun stable m₁ h => ?_
  obtain ⟨rfl, hstable, -⟩ := h
  cases stable with
  | true => exact .pure (Captures.of_fixed hc (hstable rfl))
  | false =>
    refine (yields_newTemporary c m₁).bind fun x m₂ h => ?_
    obtain ⟨rfl, rfl⟩ := h
    exact .pure (Captures.of_temporary hc hkeep)

/-- A value is captured ahead of `later` unless it is fixed or an identifier that `later` does not
assign. -/
lemma yields_spillBefore (hc : Grounded P c) (later : Script.Expr) (he : Tame c A n e) (m : ℕ) :
    Yields (spillBefore c later e) m fun L m' =>
      Captures P c (fun x => !later.writes x) n m m' [e] ⟨L.before, [L.value]⟩ := by
  cases e with
  | ident x =>
    simp only [spillBefore]
    split
    · rename_i hw
      refine yields_spill hc he (fun y hy => ?_) m
      cases hy
      simp [hw]
    · rename_i hw
      exact .pure (Captures.of_kept (by simpa using hw))
  | _ => exact yields_spill hc he (fun y hy => by cases hy) m

/-- Values are captured in turn. -/
lemma yields_spillAll (hc : Grounded P c) (es : List Script.Expr)
    (hes : ∀ e ∈ es, Tame c A n e) (hn : n ≤ m) :
    Yields (spillAll c es) m fun operands m' =>
      Captures P c (fun _ => false) n m m' es operands := by
  induction es generalizing m with
  | nil => exact .pure Captures.nil
  | cons e es ih =>
    have he := hes e List.mem_cons_self
    have hes' := fun e' he' => hes e' (List.mem_cons_of_mem e he')
    refine (yields_spill hc he (fun _ _ => rfl) m).bind fun first m₁ h => ?_
    refine (ih hes' (Nat.le_trans hn h.le)).bind fun others m₂ h' => ?_
    exact .pure (h.cons hc h' hes' hn)

/-- Values are captured in turn ahead of `later`. -/
lemma yields_spillAllBefore (hc : Grounded P c) (later : Script.Expr) (es : List Script.Expr)
    (hes : ∀ e ∈ es, Tame c A n e) (hn : n ≤ m) :
    Yields (spillAllBefore c later es) m fun operands m' =>
      Captures P c (fun x => !later.writes x) n m m' es operands := by
  induction es generalizing m with
  | nil => exact .pure Captures.nil
  | cons e es ih =>
    have he := hes e List.mem_cons_self
    have hes' := fun e' he' => hes e' (List.mem_cons_of_mem e he')
    refine (yields_spillBefore hc later he m).bind fun first m₁ h => ?_
    refine (ih hes' (Nat.le_trans hn h.le)).bind fun others m₂ h' => ?_
    exact .pure (h.cons hc h' hes' hn)

/-! Without kept identifiers, what stands for the expressions is fixed. -/

/-- Every value is fixed. -/
lemma Captures.all_fixed {operands : Operands}
    (h : Captures P c (fun _ => false) n m m' es operands) :
    ∀ e ∈ operands.values, Fixed c (fun k => k < n ∨ m ≤ k ∧ k < m') e := by
  intro e he
  rcases h.fixed e he with hfixed | ⟨x, hx, -⟩
  · exact hfixed
  · cases hx

/-- The values are those of the expressions. -/
lemma Captures.run_all {operands : Operands}
    (h : Captures P c (fun _ => false) n m m' es operands) (t : Memory String V H) :
    ∃ t', Script.Completes P operands.before t t' ∧
      Apart c m m' (Script.evalAll P es t).2 t' ∧
      ∀ t'', (∀ k, k < n ∨ m ≤ k ∧ k < m' →
          t''.vars (c.temporaryName k) = t'.vars (c.temporaryName k)) →
        Script.evalAll P operands.values t'' = ((Script.evalAll P es t).1, t'') := by
  obtain ⟨t', hrun, hapart, hvalues⟩ := h.run t
  refine ⟨t', hrun, hapart, fun t'' ht'' => ?_⟩
  rw [hvalues t'' ht'', zipWith_late_false t'' es _ (Script.length_evalAll P es t)]

/-- The value of a single expression. -/
lemma Captures.run_one {e' : Script.Expr} {before : List Script.Stmt}
    (h : Captures P c (fun _ => false) n m m' [e] ⟨before, [e']⟩) (t : Memory String V H) :
    ∃ t', Script.Completes P before t t' ∧ Apart c m m' (e.eval P t).2 t' ∧
      ∀ t'', (∀ k, k < n ∨ m ≤ k ∧ k < m' →
          t''.vars (c.temporaryName k) = t'.vars (c.temporaryName k)) →
        e'.eval P t'' = ((e.eval P t).1, t'') := by
  obtain ⟨t', hrun, hapart, hvalues⟩ := h.run_all t
  refine ⟨t', hrun, hapart, fun t'' ht'' => ?_⟩
  have hvalue := hvalues t'' ht''
  simp only [Script.evalAll, Prod.mk.injEq, List.cons.injEq, and_true] at hvalue
  exact Prod.ext hvalue.1 hvalue.2

end

end ScriptCompiler.Lowering
