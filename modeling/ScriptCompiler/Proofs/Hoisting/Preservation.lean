import ScriptCompiler.Proofs.Hoisting.Expression
import ScriptCompiler.Proofs.Hoisting.Recorder

/-!
# Hoisting preserves effects and values

Running the statements that the lowering of an expression needs, and then evaluating the value it
leaves, has the effects of evaluating the expression and yields its value.

The machine is arbitrary: what a field access, an element access, a call, a constructor or an
operator does to the store is not known, so every one of these steps must happen as often as in the
source, on the same values and in the same order.
-/

namespace ScriptCompiler.Lowering

open Machine

/-- Lowering an expression reports nothing and asks for nothing outside the program.  From every
memory that matches one of the source, the statements it emits complete, and evaluating the value
behind them ends in a memory that matches what the source ends in.  If the value is used, it is the
value of the expression. -/
theorem lowerExpr_preserves {V H : Type*} {P : Primitives V H} {c : Context} (hc : Grounded P c)
    {e : Source.Expr} {important : Bool} (he : e.Within c NoneOther important) (st : State) :
    (lowerExpr c e important st).2 = { st with next := (lowerExpr c e important st).2.next } ∧
      ∀ {g : String → V} {s : Memory VariableId V H} {t : Memory String V H}, Matches c g s t →
        ∃ t', Script.Completes P (lowerExpr c e important st).1.before t t' ∧
          Matches c g (e.eval P c s).2 ((lowerExpr c e important st).1.value.eval P t').2 ∧
          (important = true →
            ((lowerExpr c e important st).1.value.eval P t').1 = (e.eval P c s).1) := by
  obtain ⟨L, n', hstep, hL⟩ :=
    yields_lowerExpr hc (noneOther_isSequential c) e important st.next he st rfl
  rw [hstep]
  refine ⟨rfl, fun hm => ?_⟩
  obtain ⟨t', hrun, -, hm', hv⟩ := hL.lowers.run hm
  exact ⟨t', hrun, hm', hv⟩

/-- `b.use(a, b.size = (a = 5), r++)`: the second argument assigns the first one and needs
statements. -/
def sampleCall : Source.Expr :=
  let a := Source.Expr.localVar {} ⟨0⟩
  let b := Source.Expr.localVar {} ⟨1⟩
  let five := Source.Expr.constant {} (.int 5)
  .call {} (some b) ⟨2⟩ [.mk .value a,
    .mk .value (.assign {} none (.property {} (some b) ⟨0⟩) (.assign {} none a five)),
    .mk .value (.increment {} .postIncrement (.localVar {} ⟨2⟩))]

/-- The sample call can be lowered faithfully. -/
lemma within_sampleCall : sampleCall.Within .sample NoneOther true := by
  refine ⟨⟨_, rfl⟩, ⟨_, rfl⟩, ⟨_, rfl⟩, ⟨rfl, ⟨Or.inr ⟨_, _, rfl⟩, ⟨_, rfl⟩⟩, ?_, ?_⟩, ?_, trivial⟩
  · exact ⟨rfl, ⟨_, rfl⟩, trivial, Or.inl ⟨rfl, fun _ h => h⟩⟩
  · exact .inl ⟨rfl, fun _ h => h⟩
  · exact ⟨rfl, _, rfl⟩

/-- The sample call needs four statements, and on the machine that keeps a record it runs as in the
source: the method gets the old value of the variable. -/
theorem lowerExpr_preserves_sampleCall :
    (lowerExpr .sample sampleCall true {}).1.before.length = 4 ∧
      ∃ t', Script.Completes (recorder .sample) (lowerExpr .sample sampleCall true {}).1.before
          (Context.load .sample (fun _ => .null) sampleMemory) t' ∧
        Matches .sample (fun _ => .null) (sampleCall.eval (recorder .sample) .sample sampleMemory).2
          ((lowerExpr .sample sampleCall true {}).1.value.eval (recorder .sample) t').2 ∧
        ((lowerExpr .sample sampleCall true {}).1.value.eval (recorder .sample) t').1 =
          (sampleCall.eval (recorder .sample) .sample sampleMemory).1 ∧
        (sampleCall.eval (recorder .sample) .sample sampleMemory).2.store.heap =
          [.call .this "set_size" [.number (Double.ofInt 5)],
            .call .this "use" [.number .zero, .number (Double.ofInt 5), .number .zero]] := by
  obtain ⟨-, hruns⟩ := lowerExpr_preserves grounded_sample within_sampleCall {}
  obtain ⟨t', hrun, hm, hv⟩ := hruns (matches_load grounded_sample (fun _ => .null) sampleMemory)
  exact ⟨rfl, t', hrun, hm, hv rfl, rfl⟩

end ScriptCompiler.Lowering
