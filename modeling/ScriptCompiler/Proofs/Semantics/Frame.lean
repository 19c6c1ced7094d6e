import ScriptCompiler.Proofs.Semantics.Script

/-!
# What an evaluation reads and writes

Evaluating an expression writes no identifier that the expression does not assign
(`Expr.eval_vars`), and does not depend on identifiers that the expression does not mention
(`Expr.eval_congr`).  Both are inductions over the expression; primitives never touch a variable,
so only assignments and updates of identifiers matter.
-/

namespace ScriptCompiler.Script

open Machine

variable {x : String}

mutual

/-- Whether the identifier `x` stands somewhere in the expression outside function bodies. -/
def Expr.mentions (x : String) : Expr → Bool
  | .ident y => y == x
  | .member target _ => target.mentions x
  | .index target key => target.mentions x || key.mentions x
  | .call target arguments => target.mentions x || anyMentions x arguments
  | .new constructor arguments => constructor.mentions x || anyMentions x arguments
  | .object properties => anyPropertyMentions x properties
  | .array items => anyMentions x items
  | .comma items => anyMentions x items
  | .binary _ left right => left.mentions x || right.mentions x
  | .unary _ operand => operand.mentions x
  | .update _ operand => operand.mentions x
  | .assign _ target value => target.mentions x || value.mentions x
  | .conditional condition whenTrue whenFalse =>
    condition.mentions x || whenTrue.mentions x || whenFalse.mentions x
  | .null | .boolean _ | .number _ | .string _ | .this | .function .. => false

/-- Whether one of the expressions mentions `x`. -/
def anyMentions (x : String) : List Expr → Bool
  | [] => false
  | e :: rest => e.mentions x || anyMentions x rest

/-- Whether the value of one of the properties mentions `x`. -/
def anyPropertyMentions (x : String) : List Property → Bool
  | [] => false
  | .mk _ value :: rest => value.mentions x || anyPropertyMentions x rest

end

/-- Expressions assign an identifier if one of them does. -/
lemma anyWrites_eq_false_iff {es : List Expr} :
    anyWrites x es = false ↔ ∀ e ∈ es, e.writes x = false := by
  induction es with
  | nil => simp [anyWrites]
  | cons e es ih => simp [anyWrites, ih]

/-- Expressions mention an identifier if one of them does. -/
lemma anyMentions_eq_false_iff {es : List Expr} :
    anyMentions x es = false ↔ ∀ e ∈ es, e.mentions x = false := by
  induction es with
  | nil => simp [anyMentions]
  | cons e es ih => simp [anyMentions, ih]

variable {V H : Type*} {P : Primitives V H}

/-- An expression is a member access or not. -/
lemma Expr.member_or (e : Expr) : (∃ o n, e = .member o n) ∨ ∀ o n, e ≠ .member o n := by
  cases e with
  | member o n => exact .inl ⟨o, n, rfl⟩
  | _ => exact .inr fun o n h => by cases h

/-- Calling a member access calls a method of its object. -/
lemma Expr.eval_call_member (object : Expr) (name : String) (arguments : List Expr)
    (m : Memory String V H) :
    (Expr.call (.member object name) arguments).eval P m =
      (let o := object.eval P m
       let vs := evalAll P arguments o.2
       vs.2.act (P.call o.1 name vs.1)) := rfl

/-- Calling anything else calls its value. -/
lemma Expr.eval_call {target : Expr} (h : ∀ o n, target ≠ .member o n) (arguments : List Expr)
    (m : Memory String V H) :
    (Expr.call target arguments).eval P m =
      (let f := target.eval P m
       let vs := evalAll P arguments f.2
       vs.2.act (P.invoke f.1 vs.1)) := by
  cases target with
  | member o n => exact absurd rfl (h o n)
  | _ => rfl

/-! ## Identifiers that are not assigned -/

/-- An expression denotes a variable only if it is that identifier. -/
lemma Expr.slot_ne_var {e : Expr} (h : e.isIdent x = false) (m : Memory String V H) :
    (e.slot P m).1 ≠ .var x := by
  cases e with
  | ident y =>
    have hne : y ≠ x := by simpa [Expr.isIdent] using h
    simp [Expr.slot, hne]
  | member => simp [Expr.slot]
  | index => simp [Expr.slot]
  | _ => simp [Expr.slot]

mutual

/-- Evaluating an expression keeps every identifier that it does not assign. -/
theorem Expr.eval_vars : ∀ (e : Expr), e.writes x = false →
    ∀ m : Memory String V H, (e.eval P m).2.vars x = m.vars x
  | .null, _, _ | .boolean _, _, _ | .number _, _, _ | .string _, _, _ | .ident _, _, _
  | .this, _, _ | .function _ _ _, _, _ => rfl
  | .member target _, h, m => by
    simp only [Expr.writes] at h
    exact target.eval_vars h m
  | .index target key, h, m => by
    simp only [Expr.writes, Bool.or_eq_false_iff] at h
    simp only [Expr.eval, Memory.act_vars, key.eval_vars h.2, target.eval_vars h.1]
  | .call target arguments, h, m => by
    simp only [Expr.writes, Bool.or_eq_false_iff] at h
    have htarget := target.eval_vars h.1 m
    have harguments := evalAll_vars arguments h.2
    rcases target.member_or with ⟨object, name, rfl⟩ | hne
    · rw [Expr.eval_call_member, Memory.act_vars, harguments]
      exact htarget
    · rw [Expr.eval_call hne, Memory.act_vars, harguments, htarget]
  | .new constructor arguments, h, m => by
    simp only [Expr.writes, Bool.or_eq_false_iff] at h
    simp only [Expr.eval, Memory.act_vars, evalAll_vars arguments h.2,
      constructor.eval_vars h.1]
  | .object properties, h, m => by
    simp only [Expr.writes] at h
    simp only [Expr.eval, Memory.act_vars, evalProperties_vars properties h]
  | .array items, h, m => by
    simp only [Expr.writes] at h
    simp only [Expr.eval, Memory.act_vars, evalAll_vars items h]
  | .binary op left right, h, m => by
    simp only [Expr.writes, Bool.or_eq_false_iff] at h
    simp only [Expr.eval]
    split
    · split
      · exact left.eval_vars h.1 m
      · rw [right.eval_vars h.2, left.eval_vars h.1]
    · rw [Memory.act_vars, right.eval_vars h.2, left.eval_vars h.1]
  | .unary op operand, h, m => by
    simp only [Expr.writes, Bool.or_eq_false_iff, Bool.and_eq_false_iff] at h
    simp only [Expr.eval]
    split
    · rename_i hop
      have hident : operand.isIdent x = false := by simpa [hop] using h.1
      simp only [Slot.update]
      rw [Slot.write_vars P (operand.slot_ne_var hident m), Memory.act_vars, Slot.read_vars,
        operand.slot_vars h.2]
    · rw [Memory.act_vars, operand.eval_vars h.2]
  | .update op operand, h, m => by
    simp only [Expr.writes, Bool.or_eq_false_iff] at h
    simp only [Expr.eval, Slot.update]
    rw [Slot.write_vars P (operand.slot_ne_var h.1 m), Memory.act_vars, Slot.read_vars,
      operand.slot_vars h.2]
  | .assign none target value, h, m => by
    simp only [Expr.writes, Bool.or_eq_false_iff] at h
    simp only [Expr.eval]
    rw [Slot.write_vars P (target.slot_ne_var h.1.1 m), value.eval_vars h.2,
      target.slot_vars h.1.2]
  | .assign (some op) target value, h, m => by
    simp only [Expr.writes, Bool.or_eq_false_iff] at h
    have hslot : (target.slot P m).1 ≠ .var x := target.slot_ne_var h.1.1 m
    simp only [Expr.eval]
    split
    · split
      · rw [Slot.read_vars, target.slot_vars h.1.2]
      · rw [Slot.write_vars P hslot, value.eval_vars h.2, Slot.read_vars, target.slot_vars h.1.2]
    · simp only [Slot.modify]
      rw [Slot.write_vars P hslot, Memory.act_vars, value.eval_vars h.2, Slot.read_vars,
        target.slot_vars h.1.2]
  | .conditional condition whenTrue whenFalse, h, m => by
    simp only [Expr.writes, Bool.or_eq_false_iff] at h
    simp only [Expr.eval]
    split
    · rw [whenTrue.eval_vars h.1.2, condition.eval_vars h.1.1]
    · rw [whenFalse.eval_vars h.2, condition.eval_vars h.1.1]
  | .comma items, h, m => by
    simp only [Expr.writes] at h
    exact evalAll_vars items h m

/-- Evaluating the target of an assignment keeps every identifier that it does not assign. -/
theorem Expr.slot_vars : ∀ (e : Expr), e.writes x = false →
    ∀ m : Memory String V H, (e.slot P m).2.vars x = m.vars x
  | .member target _, h, m => by
    simp only [Expr.writes] at h
    exact target.eval_vars h m
  | .index target key, h, m => by
    simp only [Expr.writes, Bool.or_eq_false_iff] at h
    simp only [Expr.slot, key.eval_vars h.2, target.eval_vars h.1]
  | .ident _, _, _ | .null, _, _ | .boolean _, _, _ | .number _, _, _ | .string _, _, _
  | .this, _, _ | .call _ _, _, _ | .new _ _, _, _ | .object _, _, _ | .array _, _, _
  | .binary _ _ _, _, _ | .unary _ _, _, _ | .update _ _, _, _ | .assign _ _ _, _, _
  | .conditional _ _ _, _, _ | .function _ _ _, _, _ | .comma _, _, _ => rfl

/-- Evaluating expressions in turn keeps every identifier that none of them assigns. -/
theorem evalAll_vars : ∀ (es : List Expr), anyWrites x es = false →
    ∀ m : Memory String V H, (evalAll P es m).2.vars x = m.vars x
  | [], _, _ => rfl
  | e :: rest, h, m => by
    simp only [anyWrites, Bool.or_eq_false_iff] at h
    simp only [evalAll, evalAll_vars rest h.2, e.eval_vars h.1]

/-- Evaluating properties in turn keeps every identifier that none of them assigns. -/
theorem evalProperties_vars : ∀ (ps : List Property),
    anyPropertyWrites x ps = false →
    ∀ m : Memory String V H, (evalProperties P ps m).2.vars x = m.vars x
  | [], _, _ => rfl
  | .mk _ e :: rest, h, m => by
    simp only [anyPropertyWrites, Bool.or_eq_false_iff] at h
    simp only [evalProperties, evalProperties_vars rest h.2, e.eval_vars h.1]

end

/-! ## Identifiers that are not mentioned -/

/-- Relates every identifier outside `X` to itself. -/
def Off (X : String → Prop) (x y : String) : Prop :=
  x = y ∧ ¬ X x

/-- An identifier is related to itself only. -/
lemma biUnique_off (X : String → Prop) : Relator.BiUnique (Off X) :=
  ⟨fun _ _ _ h h' => h.1.trans h'.1.symm, fun _ _ _ h h' => h.1.symm.trans h'.1⟩

variable {X : String → Prop}

/-- An identifier outside `X` has the same value in memories that agree there. -/
lemma lookup_congr {m t : Memory String V H} (h : Agree (Off X) m t) (hx : ¬ X x) :
    lookup P t x = lookup P m x := by
  simp only [Script.lookup, h.vars (⟨rfl, hx⟩ : Off X x x)]

mutual

/-- Evaluating an expression in memories that agree on what it mentions yields the same value, and
the memories still agree. -/
theorem Expr.eval_congr : ∀ (e : Expr), (∀ x, X x → e.mentions x = false) →
    ∀ {m t : Memory String V H}, Agree (Off X) m t →
      (e.eval P t).1 = (e.eval P m).1 ∧ Agree (Off X) (e.eval P m).2 (e.eval P t).2
  | .null, _, _, _, h | .boolean _, _, _, _, h | .number _, _, _, _, h | .string _, _, _, _, h
  | .this, _, _, _, h | .function _ _ _, _, _, _, h => ⟨rfl, h⟩
  | .ident y, he, _, _, h => by
    have hy : ¬ X y := fun hy => by simpa [Expr.mentions] using he y hy
    exact ⟨lookup_congr h hy, h⟩
  | .member target name, he, _, _, h => by
    simp only [Expr.mentions] at he
    obtain ⟨hv, h₁⟩ := target.eval_congr he h
    simp only [Expr.eval, hv]
    exact h₁.act _
  | .index target key, he, _, _, h => by
    simp only [Expr.mentions, Bool.or_eq_false_iff, imp_and, forall_and] at he
    obtain ⟨hv, h₁⟩ := target.eval_congr he.1 h
    obtain ⟨hk, h₂⟩ := key.eval_congr he.2 h₁
    simp only [Expr.eval, hv, hk]
    exact h₂.act _
  | .call target arguments, he, _, _, h => by
    simp only [Expr.mentions, Bool.or_eq_false_iff, imp_and, forall_and] at he
    have htarget := target.eval_congr he.1 h
    have hslot := target.slot_congr he.1 h
    have harguments := @evalAll_congr arguments he.2
    rcases target.member_or with ⟨object, name, rfl⟩ | hne
    · -- only the object of the member is evaluated, and it is part of the slot
      obtain ⟨hl, h₁⟩ := hslot
      obtain ⟨hvs, h₂⟩ := harguments h₁
      have hv := hl.object_eq
      simp only [Expr.slot] at h₂ hvs
      simp only [Expr.eval_call_member, hv, hvs]
      exact h₂.act _
    · obtain ⟨hv, h₁⟩ := htarget
      obtain ⟨hvs, h₂⟩ := harguments h₁
      simp only [Expr.eval_call hne, hv, hvs]
      exact h₂.act _
  | .new constructor arguments, he, _, _, h => by
    simp only [Expr.mentions, Bool.or_eq_false_iff, imp_and, forall_and] at he
    obtain ⟨hv, h₁⟩ := constructor.eval_congr he.1 h
    obtain ⟨hvs, h₂⟩ := evalAll_congr arguments he.2 h₁
    simp only [Expr.eval, hv, hvs]
    exact h₂.act _
  | .object properties, he, _, _, h => by
    simp only [Expr.mentions] at he
    obtain ⟨hvs, h₁⟩ := evalProperties_congr properties he h
    simp only [Expr.eval, hvs]
    exact h₁.act _
  | .array items, he, _, _, h => by
    simp only [Expr.mentions] at he
    obtain ⟨hvs, h₁⟩ := evalAll_congr items he h
    simp only [Expr.eval, hvs]
    exact h₁.act _
  | .binary op left right, he, _, _, h => by
    simp only [Expr.mentions, Bool.or_eq_false_iff, imp_and, forall_and] at he
    obtain ⟨ha, h₁⟩ := left.eval_congr he.1 h
    obtain ⟨hb, h₂⟩ := right.eval_congr he.2 h₁
    simp only [Expr.eval, ha, hb]
    split
    · split
      · exact ⟨ha, h₁⟩
      · exact ⟨hb, h₂⟩
    · exact h₂.act _
  | .unary op operand, he, _, _, h => by
    simp only [Expr.mentions] at he
    obtain ⟨hl, h₁⟩ := operand.slot_congr he h
    obtain ⟨hr, h₂⟩ := h₁.update P (biUnique_off X) hl op.change
    obtain ⟨hv, h₃⟩ := operand.eval_congr he h
    simp only [Expr.eval, hv, hr]
    split
    · exact ⟨rfl, h₂⟩
    · exact h₃.act _
  | .update op operand, he, _, _, h => by
    simp only [Expr.mentions] at he
    obtain ⟨hl, h₁⟩ := operand.slot_congr he h
    obtain ⟨hr, h₂⟩ := h₁.update P (biUnique_off X) hl op.change
    simp only [Expr.eval, hr]
    exact ⟨trivial, h₂⟩
  | .assign none target value, he, _, _, h => by
    simp only [Expr.mentions, Bool.or_eq_false_iff, imp_and, forall_and] at he
    obtain ⟨hl, h₁⟩ := target.slot_congr he.1 h
    obtain ⟨hv, h₂⟩ := value.eval_congr he.2 h₁
    simp only [Expr.eval, hv]
    exact ⟨trivial, h₂.write P (biUnique_off X) hl _⟩
  | .assign (some op) target value, he, _, _, h => by
    simp only [Expr.mentions, Bool.or_eq_false_iff, imp_and, forall_and] at he
    obtain ⟨hl, h₁⟩ := target.slot_congr he.1 h
    obtain ⟨hold, h₂⟩ := h₁.read P hl
    obtain ⟨hv, h₃⟩ := value.eval_congr he.2 h₂
    simp only [Expr.eval, hold, hv]
    split
    · split
      · exact ⟨hold, h₂⟩
      · exact ⟨rfl, h₃.write P (biUnique_off X) hl _⟩
    · exact h₁.modify P (biUnique_off X) hl (P.binary op) (value.eval_congr he.2)
  | .conditional condition whenTrue whenFalse, he, _, _, h => by
    simp only [Expr.mentions, Bool.or_eq_false_iff, imp_and, forall_and] at he
    obtain ⟨hb, h₁⟩ := condition.eval_congr he.1.1 h
    simp only [Expr.eval, hb]
    split
    · exact whenTrue.eval_congr he.1.2 h₁
    · exact whenFalse.eval_congr he.2 h₁
  | .comma items, he, _, _, h => by
    simp only [Expr.mentions] at he
    obtain ⟨hvs, h₁⟩ := evalAll_congr items he h
    simp only [Expr.eval, hvs]
    exact ⟨trivial, h₁⟩

/-- A target denotes the same slot in memories that agree on what it mentions. -/
theorem Expr.slot_congr : ∀ (e : Expr), (∀ x, X x → e.mentions x = false) →
    ∀ {m t : Memory String V H}, Agree (Off X) m t →
      Slot.Same (Off X) (e.slot P m).1 (e.slot P t).1 ∧
        Agree (Off X) (e.slot P m).2 (e.slot P t).2
  | .ident y, he, _, _, h => by
    have hy : ¬ X y := fun hy => by simpa [Expr.mentions] using he y hy
    exact ⟨.var ⟨rfl, hy⟩, h⟩
  | .member target name, he, _, _, h => by
    simp only [Expr.mentions] at he
    obtain ⟨hv, h₁⟩ := target.eval_congr he h
    simp only [Expr.slot, hv]
    exact ⟨.member _ _, h₁⟩
  | .index target key, he, _, _, h => by
    simp only [Expr.mentions, Bool.or_eq_false_iff, imp_and, forall_and] at he
    obtain ⟨hv, h₁⟩ := target.eval_congr he.1 h
    obtain ⟨hk, h₂⟩ := key.eval_congr he.2 h₁
    simp only [Expr.slot, hv, hk]
    exact ⟨.element _ _, h₂⟩
  | .null, _, _, _, h | .boolean _, _, _, _, h | .number _, _, _, _, h | .string _, _, _, _, h
  | .this, _, _, _, h | .call _ _, _, _, _, h | .new _ _, _, _, _, h | .object _, _, _, _, h
  | .array _, _, _, _, h | .binary _ _ _, _, _, _, h | .unary _ _, _, _, _, h
  | .update _ _, _, _, _, h | .assign _ _ _, _, _, _, h | .conditional _ _ _, _, _, _, h
  | .function _ _ _, _, _, _, h | .comma _, _, _, _, h => ⟨.nowhere, h⟩

/-- The values of several expressions depend only on what these mention. -/
theorem evalAll_congr : ∀ (es : List Expr), (∀ x, X x → anyMentions x es = false) →
    ∀ {m t : Memory String V H}, Agree (Off X) m t →
      (evalAll P es t).1 = (evalAll P es m).1 ∧ Agree (Off X) (evalAll P es m).2 (evalAll P es t).2
  | [], _, _, _, h => ⟨rfl, h⟩
  | e :: rest, he, _, _, h => by
    simp only [anyMentions, Bool.or_eq_false_iff, imp_and, forall_and] at he
    obtain ⟨hv, h₁⟩ := e.eval_congr he.1 h
    obtain ⟨hvs, h₂⟩ := evalAll_congr rest he.2 h₁
    simp only [evalAll, hv, hvs]
    exact ⟨trivial, h₂⟩

/-- The values of several properties depend only on what these mention. -/
theorem evalProperties_congr : ∀ (ps : List Property),
    (∀ x, X x → anyPropertyMentions x ps = false) →
    ∀ {m t : Memory String V H}, Agree (Off X) m t →
      (evalProperties P ps t).1 = (evalProperties P ps m).1 ∧
        Agree (Off X) (evalProperties P ps m).2 (evalProperties P ps t).2
  | [], _, _, _, h => ⟨rfl, h⟩
  | .mk _ e :: rest, he, _, _, h => by
    simp only [anyPropertyMentions, Bool.or_eq_false_iff, imp_and, forall_and] at he
    obtain ⟨hv, h₁⟩ := e.eval_congr he.1 h
    obtain ⟨hvs, h₂⟩ := evalProperties_congr rest he.2 h₁
    simp only [evalProperties, hv, hvs]
    exact ⟨trivial, h₂⟩

end

end ScriptCompiler.Script
