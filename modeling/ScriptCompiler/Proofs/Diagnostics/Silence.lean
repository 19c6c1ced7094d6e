import ScriptCompiler.Proofs.Diagnostics.Defects

/-!
# When nothing is found

A step that reports defects is silent if what it asks for is there.  So a whole run is silent if
every visit in the course of it finds what it asks for, which is to say that it is `Clean`.  A visit
is clean if the node adds no defect itself and the turns of its parts are clean (`clean_iff`).
-/

namespace ScriptCompiler.Lowering

open Source (Node)

variable {c : Context} {e : Source.Expr}

/-! ## Defects of what is asked for -/

/-- Only described variables have no defect. -/
lemma variableDefects_eq_nil_iff {id : VariableId} :
    c.variableDefects id = [] ↔ c.Describes id := by
  unfold Context.variableDefects Context.Describes
  split <;> simp_all

/-- Only contained variables are references without defect. -/
lemma referenceDefects_eq_nil_iff : c.referenceDefects e = [] ↔ c.IsContained e := by
  cases e with
  | localVar i id =>
    cases hv : c.scope.get? id <;>
      simp [Context.referenceDefects, Context.IsContained, Context.variableDefects, hv]
  | _ => simp [Context.referenceDefects, Context.IsContained]

/-- The same for lambdas. -/
lemma lambdaDefects_eq_nil_iff {id : LambdaId} {parameters : List VariableId} :
    c.lambdaDefects id parameters = [] ↔
      (c.lambdas.get? id).isSome = true ∧ ∀ p ∈ parameters, c.Describes p := by
  cases hentry : c.lambdas.get? id <;>
    simp [Context.lambdaDefects, Context.Describes, hentry, Option.ne_none_iff_isSome]

/-- Only proper accesses have no defect. -/
lemma accessDefects_eq_nil_iff (h : ∀ id ∈ e.memberId?, c.Knows id) :
    accessDefects c e = [] ↔ ProperAccess c e := by
  cases e with
  | localVar i id => exact variableDefects_eq_nil_iff
  | field i target id | property i target id | indexer i target id arguments =>
    obtain ⟨form, hform⟩ := Option.isSome_iff_exists.mp (h id rfl).form
    cases form <;>
      simp [accessDefects, ProperAccess, Context.memberDefects, Context.formOf, hform, isFieldForm,
        isPropertyForm, Context.IsProperty, Context.IsAccessor, Context.IsField]
  | _ => exact iff_of_true rfl trivial

/-! ## Expressions around their operands -/

/-- What completing a strict expression asks for is there. -/
def ProperCompletion (c : Context) : Source.Expr → Prop
  | .assign _ _ target _ | .increment _ _ target => ProperAccess c target
  | e => ProperExpr c e

/-- An expression is proper before and after its parts. -/
lemma properExpr_iff : ProperExpr c e ↔ Assignable e ∧ ProperCompletion c e := by
  cases e <;> simp only [ProperExpr, Assignable, ProperCompletion, true_and]

/-- Only proper strict expressions have no defect. -/
lemma exprDefects_eq_nil_iff (hstrict : e.isStrict = true)
    (h : ∀ id ∈ (Node.expr e).members, c.Knows id) :
    exprDefects c e = [] ↔ ProperCompletion c e := by
  cases e with
  | call i target id arguments | create i id arguments =>
    have hid := h id List.mem_cons_self
    obtain ⟨form, hform⟩ := Option.isSome_iff_exists.mp hid.form
    obtain ⟨m, hm⟩ := Option.isSome_iff_exists.mp hid.member
    obtain ⟨type, htype⟩ := Option.isSome_iff_exists.mp (hid.typeName m hm)
    cases form <;>
      simp [exprDefects, ProperCompletion, ProperExpr, Context.memberDefects, Context.formOf, hform,
        isMethodForm, isConstructorForm, Context.IsMethod, Context.IsConstructor, hm, htype]
  | conditional | lambda => cases hstrict
  | _ =>
    simp only [exprDefects, ProperCompletion, ProperExpr]
    refine accessDefects_eq_nil_iff fun id hid => h id ?_
    exact Option.mem_toList.mpr hid

/-! ## Clean visits -/

/-- Every visit in the course of this one finds what it asks for. -/
def Clean (c : Context) (v : Visit × State) : Prop :=
  ∀ w, Reached c v w → Proper c w.1.node ∧ ConditionFits c w

/-- A clean visit is proper, and so is all below it. -/
theorem clean_iff {v : Visit × State} :
    Clean c v ↔ (Proper c v.1.node ∧ ConditionFits c v) ∧ ∀ w ∈ visits c v, Clean c w := by
  constructor
  · intro h
    exact ⟨h v .refl, fun w hw u hu => h u (.head hw hu)⟩
  · rintro ⟨hv, hrest⟩ u hu
    rcases hu.cases_head with rfl | ⟨w, hw, hu⟩
    · exact hv
    · exact hrest w hw u hu

/-- The turns of a sequence are clean one after the other. -/
lemma clean_inSequence_cons {v : Visit} {rest : List Visit} {s : State} :
    (∀ w ∈ inSequence c (v :: rest) s, Clean c w) ↔
      Clean c (v, s) ∧ ∀ w ∈ inSequence c rest (v.after c s), Clean c w :=
  List.forall_mem_cons

lemma clean_inSequence_nil {s : State} : ∀ w ∈ inSequence c [] s, Clean c w :=
  fun _ hw => by cases hw

end ScriptCompiler.Lowering
