import ScriptCompiler.Lowering.Body
import ScriptCompiler.Proofs.Program.Names
import ScriptCompiler.Proofs.Semantics.Frame
import ScriptCompiler.Proofs.Semantics.Source

/-!
# How the memories of source and script belong together

A context is `Grounded` in a machine if its names mean what they should: variables have names of
their own, which no temporary and nothing global has, and expressions that name types and
constructors denote constants.

The memory of the script `Matches` that of the source if both have the same store, every variable
has the value of its identifier, and identifiers that belong to no variable and no temporary have
the values they started with.  Temporaries are free.

While an expression is lowered, more is kept: `Frame` says which identifiers a piece of the script
can write at all, and `Tame` says it of a single expression.
-/

namespace ScriptCompiler.Lowering

open Machine

variable {V H : Type*}

/-! ## Names -/

namespace Context

/-- `x` is the identifier of a variable. -/
def Names (c : Context) (id : VariableId) (x : String) : Prop :=
  ∃ v, c.scope.get? id = some v ∧ v.name = x

/-- `x` is the identifier of a variable outside containers. -/
def NamesPlain (c : Context) (id : VariableId) (x : String) : Prop :=
  ∃ v, c.scope.get? id = some v ∧ v.byReference = false ∧ v.name = x

/-- The identifier of a variable outside containers is the identifier of the variable. -/
lemma NamesPlain.names {c : Context} {id : VariableId} {x : String} (h : c.NamesPlain id x) :
    c.Names id x := by
  obtain ⟨v, hv, -, hx⟩ := h
  exact ⟨v, hv, hx⟩

/-- Different numbers make different temporaries. -/
lemma temporaryName_injective (c : Context) : Function.Injective c.temporaryName :=
  fun _ _ h => toString_injective ((String.append_right_inj _).mp h)

end Context

/-- The expression consists of global names and has the value `v` in every memory. -/
structure Denotes (P : Primitives V H) (e : Script.Expr) (v : V) : Prop where
  global : ∀ {x}, e.mentions x = true → P.global x ≠ none
  eval : ∀ m : Memory String V H, e.eval P m = (v, m)

/-- The names of a context mean what they should on the machine. -/
structure Grounded (P : Primitives V H) (c : Context) : Prop where
  distinct : ∀ {i j x}, c.Names i x → c.Names j x → i = j
  not_temporary : ∀ {i x} n, c.Names i x → x ≠ c.temporaryName n
  not_global : ∀ {i x}, c.Names i x → P.global x = none
  temporary_not_global : ∀ n, P.global (c.temporaryName n) = none
  containerField : c.options.referenceField = P.containerField
  type : ∀ {id name}, c.naming.typeName? c.program id = some name →
    Denotes P (dottedName name) (P.typeValue id)
  constructor : ∀ {id m}, c.program.member? id = some m →
    c.naming.form? c.program id = some (.constructor none) →
    P.constructorValue id = P.typeValue m.declaringType
  namedConstructor : ∀ {id m name type}, c.program.member? id = some m →
    c.naming.form? c.program id = some (.constructor (some name)) →
    c.naming.typeName? c.program m.declaringType = some type →
    Denotes P (.member (dottedName type) name) (P.constructorValue id)

section

variable {P : Primitives V H} {c : Context}

/-- A variable has one identifier, and an identifier names one variable. -/
lemma Grounded.biUnique (hc : Grounded P c) : Relator.BiUnique c.Names := by
  refine ⟨fun _ _ _ h h' => hc.distinct h h', ?_⟩
  rintro i x y ⟨v, hv, rfl⟩ ⟨w, hw, rfl⟩
  have hvw : v = w := Option.some.inj (hv.symm.trans hw)
  rw [hvw]

/-- The identifier of a variable has the value that the memory gives it. -/
lemma Grounded.lookup_names (hc : Grounded P c) {id : VariableId} {x : String}
    (hx : c.Names id x) (m : Memory String V H) : Script.lookup P m x = m.vars x := by
  simp [Script.lookup, hc.not_global hx]

/-- A temporary has the value that the memory gives it. -/
lemma Grounded.lookup_temporary (hc : Grounded P c) (n : ℕ) (m : Memory String V H) :
    Script.lookup P m (c.temporaryName n) = m.vars (c.temporaryName n) := by
  simp [Script.lookup, hc.temporary_not_global n]

end

/-! ## Matching memories -/

/-- The memory `t` of the script belongs to the memory `s` of the source.  Identifiers that belong
to no variable and no temporary have the values that `g` gives them. -/
structure Matches (c : Context) (g : String → V) (s : Memory VariableId V H)
    (t : Memory String V H) : Prop extends Agree c.Names s t where
  others : ∀ {x}, (∀ id, ¬ c.Names id x) → (∀ n, x ≠ c.temporaryName n) → t.vars x = g x

section

variable {P : Primitives V H} {c : Context} {g : String → V} {s : Memory VariableId V H}
  {t t' : Memory String V H} {l : Slot VariableId V} {l' : Slot String V}

/-- A step on the store yields the same value on both sides. -/
lemma Matches.act (h : Matches c g s t) (a : Action V H) :
    (t.act a).1 = (s.act a).1 ∧ Matches c g (s.act a).2 (t.act a).2 :=
  ⟨(h.toAgree.act a).1, (h.toAgree.act a).2, h.others⟩

/-- Giving a variable a value is giving its identifier that value. -/
lemma Matches.set (h : Matches c g s t) (hc : Grounded P c) {id : VariableId} {x : String}
    (hx : c.Names id x) (v : V) : Matches c g (s.set id v) (t.set x v) where
  toAgree := h.toAgree.set hc.biUnique hx v
  others := by
    intro y hy hn
    have hyx : y ≠ x := fun hyx => hy id (hyx ▸ hx)
    rw [Memory.set_of_ne _ hyx]
    exact h.others hy hn

/-- Memories of the script that differ in temporaries only match the same memory. -/
lemma Matches.congr (h : Matches c g s t) (hc : Grounded P c) (hstore : t'.store = t.store)
    (hvars : ∀ x, (∀ n, x ≠ c.temporaryName n) → t'.vars x = t.vars x) : Matches c g s t' where
  store := hstore.trans h.store
  vars := fun hx => (hvars _ fun n => hc.not_temporary n hx).trans (h.vars hx)
  others := fun hx hn => (hvars _ hn).trans (h.others hx hn)

/-- Temporaries may be given any value. -/
lemma Matches.set_temporary (h : Matches c g s t) (hc : Grounded P c) (n : ℕ) (v : V) :
    Matches c g s (t.set (c.temporaryName n) v) :=
  h.congr hc rfl fun _ hx => Memory.set_of_ne _ (hx n) v

/-- The same slot yields the same value. -/
lemma Matches.read (P : Primitives V H) (h : Matches c g s t) {l : Slot VariableId V}
    {l' : Slot String V} (hl : Slot.Same c.Names l l') :
    (l'.read P t).1 = (l.read P s).1 ∧ Matches c g (l.read P s).2 (l'.read P t).2 := by
  obtain ⟨hv, h₁⟩ := h.toAgree.read P hl
  exact ⟨hv, h₁, fun hx hn => by rw [Slot.read_vars]; exact h.others hx hn⟩

/-- Writing a value to the same slot keeps the memories matching. -/
lemma Matches.write (h : Matches c g s t) (hc : Grounded P c) (hl : Slot.Same c.Names l l')
    (v : V) :
    Matches c g (l.write P v s) (l'.write P v t) where
  toAgree := h.toAgree.write P hc.biUnique hl v
  others := by
    intro x hx hn
    have hne : l' ≠ .var x := by
      rintro rfl
      cases hl with
      | var hxy => exact hx _ hxy
    rw [Slot.write_vars P hne]
    exact h.others hx hn

/-- Updating the same slot yields the same values on both sides. -/
lemma Matches.update (h : Matches c g s t) (hc : Grounded P c) (hl : Slot.Same c.Names l l')
    (op : Script.BinaryOp) :
    (l'.update P op t).1 = (l.update P op s).1 ∧
      Matches c g (l.update P op s).2 (l'.update P op t).2 := by
  obtain ⟨hold, h₁⟩ := h.read P hl
  obtain ⟨hnew, h₂⟩ := h₁.act (P.binary op (l.read P s).1 P.one)
  simp only [Slot.update, hold, hnew]
  exact ⟨trivial, h₂.write hc hl _⟩

end

/-- The memory of the script that belongs to a memory of the source: identifiers have the values of
their variables, and all others those that `g` gives them. -/
def Context.load (c : Context) (g : String → V) (s : Memory VariableId V H) :
    Memory String V H where
  vars x := ((c.scope.entries.find? fun e =>
    decide (e.2.name = x ∧ c.scope.get? e.1 = some e.2)).map fun e => s.vars e.1).getD (g x)
  store := s.store

/-- A variable that has a name stands in the scope. -/
lemma Context.Names.mem_entries {c : Context} {id : VariableId} {x : String} (h : c.Names id x) :
    ∃ v, (id, v) ∈ c.scope.entries ∧ c.scope.get? id = some v ∧ v.name = x := by
  obtain ⟨v, hv, hx⟩ := h
  obtain ⟨before, after, hentries, -⟩ := List.lookup_eq_some_iff.mp hv
  exact ⟨v, by rw [hentries]; simp, hv, hx⟩

/-- Every memory of the source has a memory of the script that matches it. -/
lemma matches_load {P : Primitives V H} {c : Context} (hc : Grounded P c) (g : String → V)
    (s : Memory VariableId V H) : Matches c g s (c.load g s) where
  store := rfl
  vars := by
    intro id x hx
    obtain ⟨v, hmem, hv, hname⟩ := hx.mem_entries
    simp only [Context.load]
    cases hfind : c.scope.entries.find? fun e =>
        decide (e.2.name = x ∧ c.scope.get? e.1 = some e.2) with
    | none => exact absurd (List.find?_eq_none.mp hfind _ hmem) (by simp [hname, hv])
    | some e =>
      have he : e.2.name = x ∧ c.scope.get? e.1 = some e.2 := by
        simpa using List.find?_some hfind
      have hid : e.1 = id := hc.distinct ⟨e.2, he.2, he.1⟩ hx
      simp [hid]
  others := by
    intro x hx _
    have hfind : (c.scope.entries.find? fun e =>
        decide (e.2.name = x ∧ c.scope.get? e.1 = some e.2)) = none := by
      refine List.find?_eq_none.mpr fun e _ he => ?_
      have he' : e.2.name = x ∧ c.scope.get? e.1 = some e.2 := by simpa using he
      exact hx e.1 ⟨e.2, he'.2, he'.1⟩
    simp only [Context.load, hfind, Option.map_none, Option.getD_none]

/-! ## Frames -/

/-- From `t` to `t'` only temporaries with numbers from `n` up to `n'` and variables of `A` outside
containers were written. -/
def Frame (c : Context) (A : VariableId → Prop) (n n' : ℕ) (t t' : Memory String V H) : Prop :=
  ∀ x, (∀ id, A id → ¬ c.NamesPlain id x) →
    (∀ k, n ≤ k → k < n' → x ≠ c.temporaryName k) → t'.vars x = t.vars x

section

variable {P : Primitives V H} {c : Context} {A : VariableId → Prop} {n n₁ n₂ n' : ℕ}
  {t t₁ t' : Memory String V H}

/-- Nothing was written. -/
lemma Frame.of_vars_eq (h : t'.vars = t.vars) : Frame c A n n' t t' := fun x _ _ => by rw [h]

/-- A wider range of temporaries. -/
lemma Frame.mono (h : Frame c A n₁ n₂ t t') (hn : n ≤ n₁) (hn' : n₂ ≤ n') :
    Frame c A n n' t t' := fun x hx hk =>
  h x hx fun k h₁ h₂ => hk k (Nat.le_trans hn h₁) (Nat.lt_of_lt_of_le h₂ hn')

/-- One piece after another. -/
lemma Frame.trans (h : Frame c A n n' t t₁) (h' : Frame c A n n' t₁ t') : Frame c A n n' t t' :=
  fun x hx hk => (h' x hx hk).trans (h x hx hk)

/-- Giving a temporary a value writes nothing else. -/
lemma Frame.set_temporary (k : ℕ) (v : V) (t : Memory String V H) :
    Frame c A k (k + 1) t (t.set (c.temporaryName k) v) := fun _ _ hk =>
  Memory.set_of_ne _ (hk k (Nat.le_refl k) (Nat.lt_succ_self k)) v

/-- The container of a variable stays bound to its identifier. -/
lemma Frame.container (hc : Grounded P c) (h : Frame c A n n' t t') {id : VariableId}
    {v : Variable} (hv : c.scope.get? id = some v) (href : v.byReference = true) :
    t'.vars v.name = t.vars v.name := by
  refine h _ ?_ fun k _ _ => hc.not_temporary k ⟨v, hv, rfl⟩
  rintro i - ⟨w, hw, hplain, hname⟩
  have hid : i = id := hc.distinct ⟨w, hw, hname⟩ ⟨v, hv, rfl⟩
  subst hid
  have hwv : w = v := Option.some.inj (hw.symm.trans hv)
  rw [hwv, href] at hplain
  cases hplain

/-- Temporaries outside the range keep their values. -/
lemma Frame.temporary (hc : Grounded P c) (h : Frame c A n n' t t') {k : ℕ}
    (hk : k < n ∨ n' ≤ k) : t'.vars (c.temporaryName k) = t.vars (c.temporaryName k) := by
  refine h _ (fun id _ hid => hc.not_temporary k hid.names rfl) fun j h₁ h₂ hj => ?_
  have hkj : k = j := c.temporaryName_injective hj
  omega

end

/-- An expression that mentions no temporary from number `n` on and assigns nothing but variables
of `A` outside containers. -/
structure Tame (c : Context) (A : VariableId → Prop) (n : ℕ) (e : Script.Expr) : Prop where
  fresh : ∀ k, n ≤ k → e.mentions (c.temporaryName k) = false
  writes : ∀ x, e.writes x = true → ∃ id, A id ∧ c.NamesPlain id x

section

variable {P : Primitives V H} {c : Context} {A : VariableId → Prop} {n n' : ℕ}
  {e : Script.Expr}

/-- A later bound on the temporaries. -/
lemma Tame.mono (h : Tame c A n e) (hn : n ≤ n') : Tame c A n' e :=
  ⟨fun k hk => h.fresh k (Nat.le_trans hn hk), h.writes⟩

/-- An expression is tame if it mentions and assigns no more than tame ones. -/
lemma Tame.of_parts (es : List Script.Expr) (hes : ∀ e ∈ es, Tame c A n e)
    (hmentions : ∀ x, Script.anyMentions x es = false → e.mentions x = false)
    (hwrites : ∀ x, Script.anyWrites x es = false → e.writes x = false) : Tame c A n e where
  fresh := fun k hk => hmentions _
    (Script.anyMentions_eq_false_iff.mpr fun e' he' => (hes e' he').fresh k hk)
  writes := by
    intro x hx
    by_contra hne
    have hnone : Script.anyWrites x es = false := by
      refine Script.anyWrites_eq_false_iff.mpr fun e' he' => ?_
      by_contra hw
      exact hne ((hes e' he').writes x (by simpa using hw))
    rw [hwrites x hnone] at hx
    cases hx

/-- A tame expression assigns no identifier but those of variables of `A` outside containers. -/
lemma Tame.not_writes (h : Tame c A n e) {x : String}
    (hx : ∀ id, A id → ¬ c.NamesPlain id x) : e.writes x = false := by
  by_contra hne
  obtain ⟨id, hid, hplain⟩ := h.writes x (by simpa using hne)
  exact hx id hid hplain

/-- Evaluating a tame expression writes no temporary. -/
lemma Tame.frame (h : Tame c A n e) (k : ℕ) (t : Memory String V H) :
    Frame c A k k t (e.eval P t).2 := fun _ hx _ =>
  e.eval_vars (h.not_writes hx) t

end

end ScriptCompiler.Lowering
