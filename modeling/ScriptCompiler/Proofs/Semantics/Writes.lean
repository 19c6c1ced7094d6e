import Mathlib.Logic.Relation
import ScriptCompiler.Proofs.Hoisting.Recorder

/-!
# Which identifiers an expression assigns

The test for assigned identifiers is exact on the text of an expression: it holds if and only if
some assignment or update of the identifier stands in the expression outside function bodies.  It
is safe for evaluation: an identifier that is not assigned keeps its value, whatever turn lazy
operators and conditionals take.
-/

namespace ScriptCompiler.Script

open Machine

/-- The expressions directly inside an expression.  Function bodies are not entered. -/
def Expr.parts : Expr → List Expr
  | .member target _ => [target]
  | .index target key => [target, key]
  | .call target arguments | .new target arguments => target :: arguments
  | .object properties => properties.map Property.value
  | .array items | .comma items => items
  | .binary _ left right => [left, right]
  | .unary _ operand | .update _ operand => [operand]
  | .assign _ target value => [target, value]
  | .conditional condition whenTrue whenFalse => [condition, whenTrue, whenFalse]
  | .null | .boolean _ | .number _ | .string _ | .ident _ | .this | .function .. => []

/-- The second expression stands in the first one, outside function bodies. -/
def Expr.Contains : Expr → Expr → Prop :=
  Relation.ReflTransGen fun e part => part ∈ e.parts

/-- What an assignment, a compound assignment, an increment or a decrement changes. -/
def Expr.changed? : Expr → Option Expr
  | .assign _ target _ | .update _ target => some target
  | .unary op operand => if op.isUpdate then some operand else none
  | _ => none

lemma Expr.isIdent_iff {x : String} {e : Expr} : e.isIdent x = true ↔ e = .ident x := by
  cases e <;> simp [Expr.isIdent]

lemma anyPropertyWrites_iff {x : String} {properties : List Property} :
    anyPropertyWrites x properties = true ↔
      ∃ e ∈ properties.map Property.value, e.writes x = true := by
  induction properties with
  | nil => simp [anyPropertyWrites]
  | cons p rest ih =>
    obtain ⟨name, value⟩ := p
    simp [anyPropertyWrites, Property.value, ih]

lemma anyWrites_iff {x : String} {es : List Expr} :
    anyWrites x es = true ↔ ∃ e ∈ es, e.writes x = true := by
  rw [← Bool.not_eq_false, anyWrites_eq_false_iff]
  simp

/-- An expression assigns an identifier itself or in one of its parts. -/
lemma Expr.writes_iff {x : String} {e : Expr} :
    e.writes x = true ↔
      e.changed? = some (.ident x) ∨ ∃ part ∈ e.parts, part.writes x = true := by
  cases e with
  | unary op operand =>
    by_cases hop : op.isUpdate = true <;>
      simp [Expr.writes, Expr.changed?, Expr.parts, Expr.isIdent_iff, hop]
  | _ =>
    simp [Expr.writes, Expr.changed?, Expr.parts, Expr.isIdent_iff, anyWrites_iff,
      anyPropertyWrites_iff, or_assoc]

lemma Expr.sizeOf_lt_of_mem_parts {e part : Expr} (h : part ∈ e.parts) :
    sizeOf part < sizeOf e := by
  have hlist : ∀ {items : List Expr}, part ∈ items → sizeOf part < sizeOf items :=
    List.sizeOf_lt_of_mem
  cases e with
  | object properties =>
    obtain ⟨⟨name, value⟩, hp, rfl⟩ := List.mem_map.mp h
    have hlt := List.sizeOf_lt_of_mem hp
    simp only [Property.mk.sizeOf_spec, Property.value, Expr.object.sizeOf_spec] at hlt ⊢
    omega
  | null | boolean | number | string | ident | this | function => cases h
  | _ =>
    simp only [Expr.parts, List.mem_cons, List.not_mem_nil, or_false] at h
    grind [Expr.member.sizeOf_spec, Expr.index.sizeOf_spec, Expr.call.sizeOf_spec,
      Expr.new.sizeOf_spec, Expr.array.sizeOf_spec, Expr.comma.sizeOf_spec,
      Expr.binary.sizeOf_spec, Expr.unary.sizeOf_spec, Expr.update.sizeOf_spec,
      Expr.assign.sizeOf_spec, Expr.conditional.sizeOf_spec]

/-- The test finds exactly the assignments and updates of the identifier. -/
lemma Expr.writes_iff_contains {x : String} (e : Expr) :
    e.writes x = true ↔ ∃ change, e.Contains change ∧ change.changed? = some (.ident x) := by
  constructor
  · intro h
    rcases Expr.writes_iff.mp h with h | ⟨part, hpart, h⟩
    · exact ⟨e, .refl, h⟩
    · have hlt := Expr.sizeOf_lt_of_mem_parts hpart
      obtain ⟨change, hchange, htarget⟩ := (Expr.writes_iff_contains part).mp h
      exact ⟨change, .head hpart hchange, htarget⟩
  · rintro ⟨change, hchange, htarget⟩
    induction hchange using Relation.ReflTransGen.head_induction_on with
    | refl => exact Expr.writes_iff.mpr (.inl htarget)
    | head hpart _ ih => exact Expr.writes_iff.mpr (.inr ⟨_, hpart, ih⟩)
termination_by sizeOf e

/-- An identifier that is not assigned keeps its value on every machine and from every memory; one
that is assigned is changed somewhere in the expression, outside function bodies. -/
theorem writes_sound_and_exact {V H : Type*} (e : Expr) (x : String) :
    (e.writes x = false → ∀ (P : Primitives V H) (m : Memory String V H),
      (e.eval P m).2.vars x = m.vars x) ∧
    (e.writes x = true ↔
      ∃ change, e.Contains change ∧ change.changed? = some (.ident x)) :=
  ⟨fun h _ m => e.eval_vars h m, e.writes_iff_contains⟩

/-- Whether `b` is assigned depends on `a`, which is assigned in a function body only. -/
def sampleTurns : Expr :=
  .comma [.binary .logicalAnd (.ident "a") (.assign none (.ident "b") .null),
    .conditional (.ident "a") (.update .increment (.ident "b"))
      (.function none [] [.expr (.assign none (.ident "a") .null)])]

theorem sampleTurns_writes :
    sampleTurns.writes "a" = false ∧
      (∀ m, (sampleTurns.eval (recorder .sample) m).2.vars "a" = m.vars "a") ∧
      ∃ change, sampleTurns.Contains change ∧ change.changed? = some (.ident "b") :=
  ⟨rfl, (writes_sound_and_exact sampleTurns "a").1 rfl (recorder .sample),
    (writes_sound_and_exact (V := Term) (H := List Event) sampleTurns "b").2.mp rfl⟩

end ScriptCompiler.Script
