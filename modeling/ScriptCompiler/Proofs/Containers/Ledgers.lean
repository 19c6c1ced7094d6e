import ScriptCompiler.Proofs.Containers.Uses
import ScriptCompiler.Proofs.Temporaries.Collisions

/-!
# Stand-ins for containers

A temporary that captures an argument passed by reference stands in for the container of a variable.
Which ones do is not written down anywhere in a run, so it is kept beside the run, in a `Ledger`.

A use of a name is `Allowed` if the name is free, or if its role is one of a container or of a
stand-in.  An expression is plain (`Plain`) if it may stand in any role, and it passes (`Passes`) if it
can be an argument, which also holds of the name of a container that is passed by reference.
-/

namespace ScriptCompiler.Lowering

open Script (ContainerRole Role StandInRole Use bindingsUses exprsUses stmtsUses)

variable {c : Context} {refs : VariableId → Prop}

/-! ## Ledgers -/

/-- The temporaries of a run, each with the container that it stands in for, and whether the run asked
for something outside the program. -/
structure Ledger where
  given : List (Option String)
  dangling : Bool

/-- The first ledger is continued by the second one. -/
instance : Preorder Ledger where
  le w w' := w.given <+: w'.given ∧ (w.dangling = true → w'.dangling = true)
  le_refl w := ⟨List.prefix_rfl, id⟩
  le_trans _ _ _ h h' := ⟨h.1.trans h'.1, fun hd => h'.2 (h.2 hd)⟩

namespace Ledger

variable {w w' : Ledger}

/-- The run stands where the ledger ends. -/
structure At (w : Ledger) (s : State) : Prop where
  next : s.next = w.given.length + 1
  dangling : s.dangling = w.dangling

/-- The temporary `t` has the given entry. -/
def Entry (c : Context) (w : Ledger) (t : String) (container : Option String) : Prop :=
  ∃ k, w.given[k]? = some container ∧ t = c.temporaryName (k + 1)

/-- Entries last. -/
lemma Entry.mono {t : String} {n : Option String} (h : w.Entry c t n) (hle : w ≤ w') :
    w'.Entry c t n := by
  obtain ⟨k, hk, rfl⟩ := h
  obtain ⟨more, hmore⟩ := hle.1
  refine ⟨k, ?_, rfl⟩
  rw [← hmore, List.getElem?_append_left (List.getElem?_eq_some_iff.mp hk).1, hk]

/-- A temporary has one entry. -/
theorem Entry.unique {t : String} {n n' : Option String} (h : w.Entry c t n)
    (h' : w.Entry c t n') : n = n' := by
  obtain ⟨k, hk, rfl⟩ := h
  obtain ⟨k', hk', hname⟩ := h'
  obtain rfl : k = k' := Nat.succ.inj (c.temporaryName_injective hname)
  exact Option.some.inj (hk.symm.trans hk')

/-- A temporary of the ledger counts as one where the ledger ends. -/
lemma Entry.isTemporary {t : String} {n : Option String} (h : w.Entry c t n) {s : State}
    (hs : w.At s) : s.isTemporary c t = true := by
  obtain ⟨k, hk, rfl⟩ := h
  have hlt := (List.getElem?_eq_some_iff.mp hk).1
  have hnext := hs.next
  exact isTemporary_iff.mpr ⟨k + 1, by omega, by omega, rfl⟩

end Ledger

/-! ## Allowed uses -/

/-- A name that stands for a type or for a variable without description. -/
def Context.IsForeign (c : Context) (x : String) : Prop :=
  (∃ id name, c.naming.typeName? c.program id = some name ∧
    x = (Text.dottedParts name).headD name) ∨ ∃ id, x = unknownVariable id

/-- A name that may be used for anything. -/
inductive Free (c : Context) (w : Ledger) (x : String) : Prop where
  | foreign (h : c.IsForeign x)
  | byValue {id : VariableId} {v : Variable} (hv : c.scope.get? id = some v) (hname : v.name = x)
      (h : v.byReference = false)
  /-- The name of a variable was given to a temporary. -/
  | captured {id : VariableId} {v : Variable} {n : Option String} (hv : c.scope.get? id = some v)
      (hname : v.name = x) (h : w.Entry c x n)
  | temporary (h : w.Entry c x none)
  | dangling (h : w.dangling = true)

/-- A use that leaves containers where they are.  The variables in `refs` may be passed by
reference. -/
inductive Allowed (c : Context) (refs : VariableId → Prop) (w : Ledger) : Use → Prop where
  | free {x : String} {role : Role} (h : Free c w x) : Allowed c refs w ⟨x, role⟩
  | container {id : VariableId} {v : Variable} {role : Role} (hv : c.scope.get? id = some v)
      (href : v.byReference = true)
      (h : ContainerRole c.options.referenceField (refs id) (w.Entry c · (some v.name)) role) :
    Allowed c refs w ⟨v.name, role⟩
  | standIn {t n : String} {role : Role} (ht : w.Entry c t (some n)) (h : StandInRole n role) :
    Allowed c refs w ⟨t, role⟩

section Mono

variable {w w' : Ledger}

/-- A free name stays free. -/
lemma Free.mono {x : String} (h : Free c w x) (hle : w ≤ w') : Free c w' x := by
  cases h with
  | foreign h => exact .foreign h
  | byValue hv hname h => exact .byValue hv hname h
  | captured hv hname h => exact .captured hv hname (h.mono hle)
  | temporary h => exact .temporary (h.mono hle)
  | dangling h => exact .dangling (hle.2 h)

/-- An allowed use stays allowed. -/
lemma Allowed.mono {u : Use} (h : Allowed c refs w u) (hle : w ≤ w') : Allowed c refs w' u := by
  cases h with
  | free h => exact .free (h.mono hle)
  | container hv href h =>
    refine .container hv href ?_
    cases h with
    | object => exact .object
    | entry => exact .entry
    | argument h => exact .argument h
    | given h => exact .given (h.mono hle)
    | declared value => exact .declared value
  | standIn ht h => exact .standIn (ht.mono hle) h

end Mono

/-- All of the uses are allowed. -/
def Tidy (c : Context) (refs : VariableId → Prop) (w : Ledger) (us : List Use) : Prop :=
  ∀ u ∈ us, Allowed c refs w u

/-- The expression may stand in any role. -/
def Plain (c : Context) (refs : VariableId → Prop) (w : Ledger) (e : Script.Expr) : Prop :=
  ∀ role, Tidy c refs w (e.uses role)

/-- The expression may be an argument. -/
def Passes (c : Context) (refs : VariableId → Prop) (w : Ledger) (e : Script.Expr) : Prop :=
  Plain c refs w e ∨ ∃ x, e = .ident x ∧ Allowed c refs w ⟨x, .argument⟩

section Uses

variable {w w' : Ledger} {e e' : Script.Expr} {us vs : List Use}

@[simp]
lemma tidy_nil : Tidy c refs w [] :=
  fun _ h => by cases h

/-- Two lists of uses are tidy when both are. -/
@[simp]
lemma tidy_append : Tidy c refs w (us ++ vs) ↔ Tidy c refs w us ∧ Tidy c refs w vs :=
  List.forall_mem_append

@[simp]
lemma tidy_cons {u : Use} : Tidy c refs w (u :: us) ↔ Allowed c refs w u ∧ Tidy c refs w us :=
  List.forall_mem_cons

lemma Tidy.mono (h : Tidy c refs w us) (hle : w ≤ w') : Tidy c refs w' us :=
  fun u hu => (h u hu).mono hle

/-- Expressions are tidy when each is. -/
lemma tidy_exprsUses {es : List Script.Expr} {role : Role} :
    Tidy c refs w (exprsUses es role) ↔ ∀ e ∈ es, Tidy c refs w (e.uses role) := by
  induction es with
  | nil => simp
  | cons e rest ih => simp [ih]

lemma tidy_singleton {s : Script.Stmt} :
    Tidy c refs w (stmtsUses [s]) ↔ Tidy c refs w s.uses := by
  simp

/-- A plain value stays plain. -/
lemma Plain.mono (h : Plain c refs w e) (hle : w ≤ w') : Plain c refs w' e :=
  fun role => (h role).mono hle

lemma Passes.mono (h : Passes c refs w e) (hle : w ≤ w') : Passes c refs w' e := by
  rcases h with h | ⟨x, rfl, h⟩
  · exact .inl (h.mono hle)
  · exact .inr ⟨x, rfl, h.mono hle⟩

/-- What can be passed is tidy as an argument. -/
lemma Passes.tidy (h : Passes c refs w e) : Tidy c refs w (e.uses .argument) := by
  rcases h with h | ⟨x, rfl, h⟩
  · exact h .argument
  · simpa using h

/-- A free name is a plain value. -/
lemma plain_ident {x : String} (h : Free c w x) : Plain c refs w (.ident x) :=
  fun role => by simpa using Allowed.free h

end Uses

end ScriptCompiler.Lowering
