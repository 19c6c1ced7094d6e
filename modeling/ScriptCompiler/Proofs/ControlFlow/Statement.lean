import ScriptCompiler.Proofs.ControlFlow.Constructs
import ScriptCompiler.Proofs.Hoisting.Recorder

/-!
# Lowering statements preserves control flow

The induction over the statements of a body.  If lowering them reports nothing, the script has
exactly the runs of the source: the same outcomes, in memories that match, from every memory, with
any number of rounds of any loop.
-/

namespace ScriptCompiler

namespace Source

open Lowering

/-- The initial value of the declarator, if it has one, can be lowered faithfully. -/
def Declarator.Within (c : Context) (other : Condition) : Declarator → Prop
  | .mk _ _ initializer _ => ∀ e, initializer = some e → e.Within c other true

mutual

/-- The expressions of the statement can be lowered faithfully. -/
def Stmt.Within (c : Context) (other : Condition) : Stmt → Prop
  | .comment .. | .break _ | .continue _ | .empty _ | .unsupported .. => True
  | .declare _ declarators => ∀ d ∈ declarators, d.Within c other
  | .expr _ e => e.Within c other false
  | .block _ body | .checked _ body | .unchecked _ body => stmtsWithin c other body
  | .return _ value | .throw _ value => ∀ e, value = some e → e.Within c other true
  | .branch _ condition thenBranch elseBranch =>
    condition.Within c other true ∧ thenBranch.Within c other ∧ elseWithin c other elseBranch
  | .whileLoop _ condition body | .doWhile _ body condition =>
    condition.Within c other true ∧ body.Within c other

/-- The expressions of an else branch can be lowered faithfully. -/
def elseWithin (c : Context) (other : Condition) : Option Stmt → Prop
  | none => True
  | some s => s.Within c other

/-- The expressions of the statements can be lowered faithfully. -/
def stmtsWithin (c : Context) (other : Condition) : List Stmt → Prop
  | [] => True
  | s :: rest => s.Within c other ∧ stmtsWithin c other rest

end

end Source

namespace Lowering

open Machine

section

variable {V H : Type*} {P : Primitives V H} {c : Context} {other : Condition}

/-- Comments do nothing. -/
lemma runs_commentStmts (kind : CommentKind) (content : String) :
    Runs P c (commentStmts c kind content) (.step id) := by
  have hcomment : ∀ text, Runs P c [.comment text] (.step id) := fun text _ _ t hm =>
    meets_step (Script.completes_singleton fun _ _ => Iff.rfl) hm
  have hnone : Runs P c [] (.step id) := fun _ _ t hm => meets_step (Script.completes_nil t) hm
  cases kind with
  | singleLine => exact hcomment content
  | multiLine =>
    simp only [commentStmts]
    split
    · exact hcomment _
    · exact hnone
  | _ => exact hnone

/-- A statement that ends at once with an outcome. -/
lemma runs_outcome {last : Script.Stmt} {o : Outcome V}
    (h : last.behavior P = .ends fun t => (o, t)) : Runs P c [last] (.ends fun s => (o, s)) := by
  intro g s t hm
  have hmeets : Behavior.Meets (Matches c g) (Behavior.ends fun s => (o, s))
      (Behavior.ends fun t => (o, t)) s t := Behavior.meets_ends rfl hm
  rw [← h] at hmeets
  exact hmeets.congr (fun _ _ => Iff.rfl) (Script.behaviorAll_singleton last t)

section

variable (hc : Grounded P c) (hother : other.IsSequential c)

include hc hother

-- only one of the theorems uses the hypotheses itself
set_option linter.unusedSectionVars false

mutual

/-- A statement that is lowered without a message runs as in the source. -/
theorem emits_lowerStmt :
    ∀ (s : Source.Stmt) (spliced : Bool), s.Within c other →
      Emits (lowerStmt c s spliced) fun result => Runs P c result (s.behavior P c)
  | .comment _ kind content, _, _ => by
    simp only [lowerStmt]
    exact .located (.pure (runs_commentStmts kind content))
  | .declare _ declarators, _, h => by
    simp only [lowerStmt]
    refine .located ((emits_lowerDeclarators hc hother declarators
      (fun i name e span hmem => ?_) []).mono fun result hresult g s t hm => hresult hm)
    exact h _ hmem e rfl
  | .expr _ e, _, h => by
    simp only [lowerStmt]
    refine .located ((emits_lowerExpr hc hother h).bind fun L => .pure fun hL => ?_)
    exact hL.runs_ends (f := fun _ => .normal) rfl fun _ _ _ => rfl
  | .block _ body, spliced, h => by
    have hbody := emits_lowerStmts body h
    cases spliced with
    | true =>
      simp only [lowerStmt, if_true]
      exact hbody
    | false =>
      simp only [lowerStmt, Bool.false_eq_true, if_false]
      exact .located (hbody.bind fun result => .pure fun hresult => hresult.block)
  | .checked _ body, _, h | .unchecked _ body, _, h => by
    simp only [lowerStmt]
    exact .located ((emits_lowerStmts body h).bind fun result => .pure fun hresult => hresult.block)
  | .return _ none, _, _ | .break _, _, _ | .continue _, _, _ | .empty _, _, _ => by
    simp only [lowerStmt]
    exact .located (.pure (runs_outcome rfl))
  | .return _ (some e), _, h => by
    simp only [lowerStmt]
    refine .located ((emits_lowerExpr hc hother (h e rfl)).bind fun L => .pure fun hL => ?_)
    exact hL.runs_ends (f := fun v => .return (some v)) rfl fun h => by cases h
  | .branch _ condition thenBranch elseBranch, _, h => by
    simp only [lowerStmt]
    refine .located ((emits_lowerExpr hc hother h.1).bind fun L => ?_)
    refine (emits_lowerStmt thenBranch true h.2.1).bind fun body => ?_
    refine (emits_lowerElse elseBranch h.2.2).bind fun otherwise => ?_
    exact .pure fun helse hthen hL => hL.runs_branch hthen helse
  | .whileLoop _ condition body, _, h => by
    simp only [lowerStmt]
    refine .located ((emits_lowerExpr hc hother h.1).bind fun L => ?_)
    refine (emits_lowerStmt body true h.2).bind fun stmts => ?_
    exact .pure fun hbody hL => hL.runs_whileStmt hbody
  | .doWhile _ body condition, _, h => by
    simp only [lowerStmt]
    refine .located ((emits_lowerStmt body true h.2).bind fun stmts => ?_)
    refine .located ((emits_lowerExpr hc hother h.1).bind fun L => ?_)
    exact (emits_doWhileStmts L stmts).mono fun result hresult hL hbody => hresult hL hbody
  | .throw _ none, _, _ | .unsupported _ construct, _, _ => by
    simp only [lowerStmt]
    exact .located ((emits_report _ _ fun _ => False).bind fun _ => .pure False.elim)
  | .throw _ (some e), _, h => by
    simp only [lowerStmt]
    refine .located ((emits_lowerExpr hc hother (h e rfl)).bind fun L => .pure fun hL => ?_)
    exact hL.runs_ends (f := fun v => .throw v) rfl fun h => by cases h

/-- An else branch that is lowered without a message runs as in the source. -/
theorem emits_lowerElse :
    ∀ (elseBranch : Option Source.Stmt), Source.elseWithin c other elseBranch →
      Emits (lowerElse c elseBranch) fun otherwise => ∀ g : String → V,
        Behavior.Bisimilar (Matches c g) (Source.elseBehavior P c elseBranch)
          (Script.elseBehavior P otherwise)
  | none, _ => by
    simp only [lowerElse]
    exact .pure fun g s t hm => Behavior.meets_ends rfl hm
  | some s, h => by
    simp only [lowerElse]
    exact (emits_lowerStmt s true h).bind fun body => .pure fun hbody => hbody

/-- Statements that are lowered without a message run as in the source. -/
theorem emits_lowerStmts :
    ∀ (body : List Source.Stmt), Source.stmtsWithin c other body →
      Emits (lowerStmts c body) fun result => Runs P c result (Source.behaviorAll P c body)
  | [], _ => by
    simp only [lowerStmts]
    exact .pure fun g s t hm => meets_step (Script.completes_nil t) hm
  | s :: rest, h => by
    simp only [lowerStmts]
    refine (emits_lowerStmt s false h.1).bind fun first => ?_
    refine (emits_lowerStmts rest h.2).bind fun others => ?_
    exact .pure fun hothers hfirst => hfirst.append hothers

end

end

/-- If lowering a list of statements reports nothing, the emitted statements have the runs of the
source.  From memories that match, every run of the source is met by a run of the script with the
same outcome that ends in a matching memory, and the other way round; temporaries play no part. -/
theorem lowerStmts_preserves_runs (hc : Grounded P c) {body : List Source.Stmt}
    (hbody : Source.stmtsWithin c NoneOther body) {st : State}
    (hquiet : (lowerStmts c body st).2.reporter.messages = st.reporter.messages)
    {g : String → V} {s : Memory VariableId V H} {t : Memory String V H} (hm : Matches c g s t) :
    (∀ {o s'}, Source.behaviorAll P c body s o s' →
      ∃ t', Script.behaviorAll P (lowerStmts c body st).1 t o t' ∧ Matches c g s' t') ∧
    (∀ {o t'}, Script.behaviorAll P (lowerStmts c body st).1 t o t' →
      ∃ s', Source.behaviorAll P c body s o s' ∧ Matches c g s' t') := by
  obtain ⟨reported, hmessages, hruns⟩ :=
    emits_lowerStmts hc (noneOther_isSequential c) body hbody st
  rw [hquiet] at hmessages
  have hmeets := hruns (List.self_eq_append_right.mp hmessages) g hm
  exact ⟨hmeets.forth, hmeets.back⟩

end

/-- `while (b.size = (a = 5)) { if (a) break; continue; } do continue; while (!(b.size = a));`: both
conditions need statements, and one of them assigns what the body of its loop tests. -/
def sampleLoops : List Source.Stmt :=
  let a := Source.Expr.localVar {} ⟨0⟩
  let size := Source.Expr.property {} (some (.localVar {} ⟨1⟩)) ⟨0⟩
  let five := Source.Expr.constant {} (.int 5)
  [.whileLoop {} (.assign {} none size (.assign {} none a five))
      (.block {} [.branch {} a (.break {}) none, .continue {}]),
    .doWhile {} (.continue {}) (.unary {} .not (.assign {} none size a))]

/-- The expressions of the sample loops can be lowered faithfully. -/
lemma within_sampleLoops : Source.stmtsWithin .sample NoneOther sampleLoops := by
  refine ⟨⟨⟨rfl, ⟨Or.inr ⟨_, _, rfl⟩, _, rfl⟩, ?_, Or.inl ⟨rfl, fun _ h => h⟩⟩, ?_⟩, ⟨?_, trivial⟩,
    trivial⟩
  · exact ⟨rfl, ⟨_, rfl⟩, trivial, Or.inl ⟨rfl, fun _ h => h⟩⟩
  · exact ⟨⟨⟨_, rfl⟩, trivial, trivial⟩, trivial, trivial⟩
  · exact ⟨rfl, ⟨Or.inr ⟨_, _, rfl⟩, _, rfl⟩, ⟨_, rfl⟩, Or.inl ⟨rfl, fun _ h => h⟩⟩

/-- The sample loops are lowered without a message.  On the machine that keeps a record they end
normally in the source, with one call of the setter each, and so they do in the script. -/
theorem lowerStmts_preserves_runs_sampleLoops :
    (lowerStmts .sample sampleLoops {}).2.reporter.messages = [] ∧ ∃ s' t',
      Source.behaviorAll (recorder .sample) .sample sampleLoops sampleMemory .normal s' ∧
        s'.store.heap = [.call .this "set_size" [.number (Double.ofInt 5)],
          .call .this "set_size" [.number (Double.ofInt 5)]] ∧
        Script.behaviorAll (recorder .sample) (lowerStmts .sample sampleLoops {}).1
          (Context.load .sample (fun _ => .null) sampleMemory) .normal t' ∧
        Matches .sample (fun _ => .null) s' t' := by
  have hquiet : (lowerStmts .sample sampleLoops {}).2.reporter.messages = [] := rfl
  have hrun : Source.behaviorAll (recorder .sample) .sample sampleLoops sampleMemory .normal _ :=
    Or.inl ⟨_, .stop ⟨.break, Or.inr ⟨(fun h => by cases h), rfl, rfl⟩, rfl⟩,
      Or.inl ⟨_, .stop ⟨.continue, _, ⟨rfl, rfl⟩, rfl, rfl⟩, rfl, rfl⟩⟩
  obtain ⟨hforth, -⟩ := lowerStmts_preserves_runs grounded_sample within_sampleLoops hquiet
    (matches_load grounded_sample (fun _ => .null) sampleMemory)
  obtain ⟨t', hscript, hm⟩ := hforth hrun
  exact ⟨hquiet, _, t', hrun, rfl, hscript, hm⟩

end Lowering

end ScriptCompiler
