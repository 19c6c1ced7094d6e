import Mathlib.Data.List.Forall2
import ScriptCompiler.Proofs.Hoisting.Capture
import ScriptCompiler.Proofs.Hoisting.Fragment

/-!
# Operands in source order

`Lowers` says that a lowered value does what a computation of the source does: from matching
memories, its statements complete, and evaluating the value behind them ends in matching memories.
`Gathers` says the same of a list of operands.

The step from one to the next is `Gathers.add`.  If the new operand needs statements, the operands
so far are captured ahead of these, so that they are still evaluated first and keep their values.
-/

namespace ScriptCompiler.Lowering

open Machine

variable {V H : Type*}

/-- The lowered value does what `source` does.  It writes variables of `A` and temporaries from
number `n` up to `n'`.  If the value is `important`, it is the value of `source`. -/
structure Lowers (P : Primitives V H) (c : Context) (A : VariableId → Prop) (important : Bool)
    (n n' : ℕ) (L : Lowered) (source : Memory VariableId V H → V × Memory VariableId V H) :
    Prop where
  le : n ≤ n'
  tame : Tame c A n' L.value
  run : ∀ {g : String → V} {s : Memory VariableId V H} {t : Memory String V H},
    Matches c g s t → ∃ t', Script.Completes P L.before t t' ∧ Frame c A n n' t t' ∧
      Matches c g (source s).2 (L.value.eval P t').2 ∧
      (important = true → (L.value.eval P t').1 = (source s).1)

/-- What stands for an argument of the source: it assigns what the argument assigns; if it is an
identifier, it is a temporary or the variable that the argument is; and it is a member access only
if the argument is lowered to one. -/
structure Stands (c : Context) (n : ℕ) (e : Script.Expr) (a : Source.Argument) : Prop where
  tame : Tame c (fun id => a.assigns id = true) n e
  ident : ∀ x, e = .ident x → (∃ k, x = c.temporaryName k) ∨ a.names c x
  callable : ∀ source, a = .mk .value source → IsCallable c source →
    ∀ object name, e ≠ .member object name

/-- The operands do what evaluating the arguments in turn does, and yield the same values. -/
structure Gathers (P : Primitives V H) (c : Context) (A : VariableId → Prop) (n n' : ℕ)
    (operands : Operands) (arguments : List Source.Argument) : Prop where
  le : n ≤ n'
  tame : ∀ e ∈ operands.values, Tame c A n' e
  stands : List.Forall₂ (Stands c n') operands.values arguments
  run : ∀ {g : String → V} {s : Memory VariableId V H} {t : Memory String V H},
    Matches c g s t → ∃ t', Script.Completes P operands.before t t' ∧ Frame c A n n' t t' ∧
      (Script.evalAll P operands.values t').1 = (Source.evalArguments P c arguments s).1 ∧
      Matches c g (Source.evalArguments P c arguments s).2
        (Script.evalAll P operands.values t').2

section

variable {P : Primitives V H} {c : Context} {A B : VariableId → Prop} {important : Bool}
  {n n₁ n₂ n' : ℕ} {L : Lowered} {operands : Operands} {arguments : List Source.Argument}
  {a : Source.Argument} {e : Script.Expr}
  {source : Memory VariableId V H → V × Memory VariableId V H}

/-- More variables to write. -/
lemma Tame.weaken (h : Tame c A n e) (hAB : ∀ id, A id → B id) : Tame c B n e where
  fresh := h.fresh
  writes := fun x hx => by
    obtain ⟨id, hid, hplain⟩ := h.writes x hx
    exact ⟨id, hAB id hid, hplain⟩

/-- More variables to write. -/
lemma Frame.weaken {t t' : Memory String V H} (h : Frame c A n n' t t')
    (hAB : ∀ id, A id → B id) : Frame c B n n' t t' := fun x hx hk =>
  h x (fun id hid => hx id (hAB id hid)) hk

/-- More variables to write. -/
lemma Lowers.weaken (h : Lowers P c A important n n' L source) (hAB : ∀ id, A id → B id) :
    Lowers P c B important n n' L source where
  le := h.le
  tame := h.tame.weaken hAB
  run := fun hm => by
    obtain ⟨t', hrun, hframe, hrest⟩ := h.run hm
    exact ⟨t', hrun, hframe.weaken hAB, hrest⟩

/-- A later bound on the temporaries. -/
lemma Stands.mono (h : Stands c n e a) (hn : n ≤ n') : Stands c n' e a :=
  ⟨h.tame.mono hn, h.ident, h.callable⟩

/-- A fixed value may stand for any argument. -/
lemma Fixed.stands {K : ℕ → Prop} (h : Fixed c K e) (hK : ∀ k, K k → k < n)
    (a : Source.Argument) : Stands c n e a := by
  refine ⟨h.tame hK, ?_, ?_⟩
  · rintro x rfl
    exact .inl h.eq_temporary
  · rintro source rfl - object name rfl
    rcases h with hpure | ⟨k, -, hident⟩
    · cases hpure
    · cases hident

/-- A value that needs no statements does what the source does. -/
lemma Lowers.run_direct (h : Lowers P c A important n n' L source) (hbefore : L.before = [])
    {g : String → V} {s : Memory VariableId V H} {t : Memory String V H} (hm : Matches c g s t) :
    Matches c g (source s).2 (L.value.eval P t).2 ∧
      (important = true → (L.value.eval P t).1 = (source s).1) := by
  obtain ⟨t', hrun, -, hrest⟩ := h.run hm
  rw [hbefore] at hrun
  rw [(Script.completes_nil t).unique hrun]
  exact hrest

/-- No operands. -/
lemma Gathers.nil : Gathers P c A n n {} [] where
  le := Nat.le_refl n
  tame := by simp
  stands := .nil
  run := fun {g s t} hm => ⟨t, Script.completes_nil t, Frame.of_vars_eq rfl, rfl, hm⟩

/-- What becomes of the operands if another one comes: either it needs no statements, or the
operands are captured ahead of them. -/
lemma yields_add (hc : Grounded P c) (hvalues : ∀ e ∈ operands.values, Tame c A n₁ e)
    (L : Lowered) (hn : n₁ ≤ n₂) :
    Yields (operands.add c L) n₂ fun operands' n' =>
      (L.before = [] ∧ n' = n₂ ∧
        operands' = { operands with values := operands.values ++ [L.value] }) ∨
      (L.before ≠ [] ∧ ∃ captured,
        Captures P c (fun _ => false) n₁ n₂ n' operands.values captured ∧
        operands' = { before := operands.before ++ captured.before ++ L.before
                      values := captured.values ++ [L.value] }) := by
  simp only [Operands.add]
  split
  · rename_i hempty
    exact .pure (Or.inl ⟨List.isEmpty_iff.mp hempty, rfl, rfl⟩)
  · rename_i hempty
    refine (yields_spillAll hc operands.values hvalues hn).bind fun captured n₃ h => ?_
    refine .pure (Or.inr ⟨fun hnil => hempty (List.isEmpty_iff.mpr hnil), captured, h, rfl⟩)

/-- An operand that needs no statements is evaluated behind the others. -/
lemma Gathers.add_direct (h : Gathers P c A n n₁ operands arguments)
    (hL : Lowers P c (fun id => a.assigns id = true) true n₁ n₂ L (a.eval P c))
    (hstands : Stands c n₂ L.value a) (hA : ∀ id, a.assigns id = true → A id)
    (hbefore : L.before = []) :
    Gathers P c A n n₂ { operands with values := operands.values ++ [L.value] }
      (arguments ++ [a]) where
  le := Nat.le_trans h.le hL.le
  tame := by
    intro e he
    rcases List.mem_append.mp he with he | he
    · exact (h.tame e he).mono hL.le
    · rw [List.mem_singleton.mp he]
      exact hL.tame.weaken hA
  stands := List.rel_append (h.stands.imp fun _ _ hs => hs.mono hL.le) (.cons hstands .nil)
  run := by
    intro g s t hm
    obtain ⟨t₁, hrun, hframe, hvs, hm₁⟩ := h.run hm
    obtain ⟨hm₂, hv⟩ := hL.run_direct hbefore hm₁
    refine ⟨t₁, hrun, hframe.mono (Nat.le_refl n) hL.le, ?_, ?_⟩
    · simp only [Script.evalAll_append, Source.evalArguments_append, Script.evalAll,
        Source.evalArguments_cons, Source.evalArguments, hvs, hv rfl]
    · simpa only [Script.evalAll_append, Source.evalArguments_append, Script.evalAll,
        Source.evalArguments_cons, Source.evalArguments] using hm₂

/-- An operand that needs statements is evaluated behind the others, which are captured.

The temporaries of the captured operands have higher numbers than those of the new operand, but
they are set before its statements run. -/
lemma Gathers.add_captured (hc : Grounded P c) (h : Gathers P c A n n₁ operands arguments)
    (hL : Lowers P c (fun id => a.assigns id = true) true n₁ n₂ L (a.eval P c))
    (hstands : Stands c n₂ L.value a) (hA : ∀ id, a.assigns id = true → A id)
    {captured : Operands} (hcap : Captures P c (fun _ => false) n₁ n₂ n' operands.values captured) :
    Gathers P c A n n' { before := operands.before ++ captured.before ++ L.before
                         values := captured.values ++ [L.value] } (arguments ++ [a]) := by
  have hn := h.le
  have hn₂ := hL.le
  have hn' := hcap.le
  have hlength : captured.values.length = arguments.length :=
    hcap.length.trans h.stands.length_eq
  have hfixed : ∀ k, k < n₁ ∨ n₂ ≤ k ∧ k < n' → k < n' := fun k hk => by omega
  refine ⟨by omega, ?_, ?_, fun {g s t} hm => ?_⟩
  · intro e he
    rcases List.mem_append.mp he with he | he
    · exact (hcap.all_fixed e he).tame hfixed
    · rw [List.mem_singleton.mp he]
      exact (hL.tame.weaken hA).mono hn'
  · refine List.rel_append ?_ (.cons (hstands.mono hn') .nil)
    refine List.forall₂_iff_zip.mpr ⟨hlength, fun {e b} heb => ?_⟩
    exact (hcap.all_fixed e (List.of_mem_zip heb).1).stands hfixed b
  · obtain ⟨t₁, hrun₁, hframe₁, hvs, hm₁⟩ := h.run hm
    obtain ⟨t₂, hrun₂, hapart, hvalues⟩ := hcap.run_all t₁
    obtain ⟨t₃, hrun₃, hframe₃, hm₃, hv⟩ := hL.run (hm₁.apart hc hapart)
    have hframe₂ : Frame c A n n' t₁ t₂ :=
      ((Tame.evalAll_frame h.tame n t₁).mono (Nat.le_refl n) (by omega)).trans
        (hapart.frame.mono (by omega) (Nat.le_refl n'))
    -- the statements of the new operand leave the temporaries alone
    have hkept : Script.evalAll P captured.values t₃ =
        ((Script.evalAll P operands.values t₁).1, t₃) :=
      hvalues t₃ fun k hk => hframe₃.temporary hc (by omega)
    refine ⟨t₃, (hrun₁.append hrun₂).append hrun₃, ?_, ?_, ?_⟩
    · exact ((hframe₁.mono (Nat.le_refl n) (by omega)).trans hframe₂).trans
        ((hframe₃.weaken hA).mono hn hn')
    · simp only [Script.evalAll_append, hkept, Source.evalArguments_append, Script.evalAll,
        Source.evalArguments_cons, Source.evalArguments, hvs, hv rfl]
    · simpa only [Script.evalAll_append, hkept, Source.evalArguments_append, Script.evalAll,
        Source.evalArguments_cons, Source.evalArguments] using hm₃

/-- Operands are lowered in turn. -/
lemma Gathers.add (hc : Grounded P c) (h : Gathers P c A n n₁ operands arguments)
    (hL : Lowers P c (fun id => a.assigns id = true) true n₁ n₂ L (a.eval P c))
    (hstands : Stands c n₂ L.value a) (hA : ∀ id, a.assigns id = true → A id) :
    Yields (operands.add c L) n₂ fun operands' n' =>
      Gathers P c A n n' operands' (arguments ++ [a]) := by
  refine (yields_add hc h.tame L hL.le).mono fun operands' n' hcases => ?_
  rcases hcases with ⟨hbefore, rfl, rfl⟩ | ⟨-, captured, hcap, rfl⟩
  · exact h.add_direct hL hstands hA hbefore
  · exact h.add_captured hc hL hstands hA hcap

end

end ScriptCompiler.Lowering
