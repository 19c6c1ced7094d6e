import ScriptCompiler.Proofs.Diagnostics.Defects
import ScriptCompiler.Session.Basic

/-!
# Steps of lowering

Every operation of lowering goes through the operations on the state, and a body is compiled by
lowering its statement.
-/

namespace ScriptCompiler

namespace Lowering

variable (c : Context)

/-! ## Operations -/

lemma composed_add (operands : Operands) (operand : Lowered) :
    Composed c (operands.add c operand) :=
  (silent_add (K := False) operands operand).composed

lemma composed_readVariable (id : VariableId) : Composed c (readVariable c id) :=
  (tells_readVariable (K := False) id).composed

lemma composed_passReference (e : Source.Expr) : Composed c (passReference c e) :=
  (tells_passReference (K := False) e).composed

lemma composed_fieldName (id : MemberId) : Composed c (fieldName c id) :=
  (tells_fieldName False.elim).composed

lemma composed_methodName (id : MemberId) : Composed c (methodName c id) :=
  (tells_methodName False.elim).composed

lemma composed_placeReceiver (id : MemberId) (target : Option Source.Expr)
    (operands : List Script.Expr) : Composed c (placeReceiver c id target operands) :=
  (silent_placeReceiver False.elim target operands).composed

lemma composed_getProperty (object : Script.Expr) (id : MemberId)
    (arguments : List Script.Expr) : Composed c (getProperty c object id arguments) :=
  (tells_getProperty False.elim object arguments).composed

lemma composed_setterName (id : MemberId) : Composed c (Place.setterName c id) :=
  (tells_setterName False.elim).composed

lemma composed_placeOf (target : Source.Expr) (operands : List Script.Expr) :
    Composed c (placeOf c target operands) :=
  (tells_placeOf False.elim operands).composed

lemma composed_shortCircuit (op : Source.BinaryOp) (left right : Lowered) :
    Composed c (shortCircuit c op left right) :=
  (silent_shortCircuit (K := False) op left right).composed

lemma composed_choose (condition whenTrue whenFalse : Lowered) :
    Composed c (choose c condition whenTrue whenFalse) :=
  (silent_choose (K := False) condition whenTrue whenFalse).composed

lemma composed_lambdaHead (id : LambdaId) (parameters : List VariableId) :
    Composed c (lambdaHead c id parameters) :=
  (tells_lambdaHead (K := False) id parameters).composed

lemma composed_doWhileStmts {c : Context} (body : List Script.Stmt) (condition : Lowered) :
    Composed c (doWhileStmts body condition) := by
  unfold doWhileStmts
  split
  · exact .pure _
  · split
    · exact .pure _
    · exact (composed_unsupported _).bind fun _ => .pure _

lemma composed_announce {c : Context} (e : Source.Expr) : Composed c (announce e) :=
  (tells_announce (K := False) e).composed

lemma composed_complete {e : Source.Expr} (hstrict : e.isStrict = true) (important : Bool)
    (operands : Operands) : Composed c (complete c e important operands) :=
  (tells_complete False.elim hstrict important operands).composed

end Lowering

/-- A body is compiled by lowering its statement, unless something outside the program was asked
for. -/
lemma Session.compileBody_eq (s : Session) (b : Body) (r : Reporter) :
    s.compileBody b r =
      if (Lowering.lowerStmt (s.context b) b.statement true { reporter := r }).2.dangling then none
      else some ((Lowering.lowerStmt (s.context b) b.statement true { reporter := r }).1,
        (Lowering.lowerStmt (s.context b) b.statement true { reporter := r }).2.reporter) := by
  have hresult : ∀ (step : Lowering.Lower (List Script.Stmt)) (st : Lowering.State),
      Lowering.result? step st =
        if (step st).2.dangling then none else some ((step st).1, (step st).2) :=
    fun _ _ => rfl
  unfold compileBody
  rw [hresult]
  split <;> rfl

/-- The script of a body is what its statement is lowered to. -/
lemma Session.lowerStmt_of_compileBody {s : Session} {b : Body} {r r' : Reporter}
    {out : List Script.Stmt} (h : s.compileBody b r = some (out, r')) :
    (Lowering.lowerStmt (s.context b) b.statement true { reporter := r }).1 = out := by
  rw [compileBody_eq] at h
  split at h
  · cases h
  · exact congrArg Prod.fst (Option.some.inj h)

end ScriptCompiler
