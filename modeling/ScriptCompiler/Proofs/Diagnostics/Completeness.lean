import ScriptCompiler.Proofs.Contents.Lowering
import ScriptCompiler.Proofs.Diagnostics.Findings

/-!
# Reports are sound and complete

Compiling a body reports nothing if and only if the body is well formed
(`Session.compileBody_silent_iff`).  A report is the only way to lose something: without one, the
script holds every mark that the body leaves, and only remarks leave none.

There is one exception.  An indexer that became an element of its object takes one argument, and one
that became a field takes none.  Further arguments are dropped with their effects and without a
report, as `Session.compileBody_drops_argument` shows.
-/

namespace ScriptCompiler

namespace Lowering

open Source (Node Contains)

variable {c : Context}

/-- Inside proper nodes, remarks are what leaves nothing. -/
lemma leaves_eq_nil_iff {n : Node} (hproper : ∀ k, Contains n k → Proper c k) :
    leaves c n = [] ↔ IsRemark n := by
  have hown : ∀ {k : Node}, leaves c k = [] → own c k = [] ∧ ∀ part ∈ k.parts, leaves c part = [] := by
    intro k hk
    rw [leaves_eq, List.append_eq_nil_iff, List.flatMap_eq_nil_iff] at hk
    exact hk
  constructor
  · intro h
    rcases isRemark_of_own_eq_nil (hproper n .refl) (hown h).1 with hremark | ⟨span, value, rfl⟩
    · exact hremark
    -- an expression always leaves something, so an expression statement does
    · have hpart : Node.expr value ∈ (Node.stmt (.expr span value)).parts := List.mem_cons_self
      have hvalue := (hown ((hown h).2 _ hpart)).1
      have hproperValue : Proper c (.expr value) := hproper _ (Relation.ReflTransGen.single hpart)
      rcases isRemark_of_own_eq_nil hproperValue hvalue with hremark | ⟨_, _, heq⟩
      · exact hremark.elim
      · cases heq
  · intro h
    rw [leaves_eq]
    cases n with
    | expr e => exact h.elim
    | stmt t =>
      cases t with
      | comment span kind content =>
        have hnone : commentMarks c kind content = [] := by
          rcases h with hkind | ⟨rfl, hblank⟩
          · simp only [List.mem_cons, List.not_mem_nil, or_false] at hkind
            rcases hkind with rfl | rfl | rfl <;> rfl
          · simp only [commentMarks, (reformatComment_eq_none_iff _ _).mpr hblank]
            rfl
        exact List.append_eq_nil_iff.mpr ⟨hnone, rfl⟩
      | declare span declarators =>
        cases declarators with
        | nil => rfl
        | cons d rest => exact h.elim
      | _ => exact h.elim

/-- A body that is lowered in silence is retained, if its indexers keep their arguments. -/
lemma leaves_subperm_of_silent {body : Source.Stmt} {s : State}
    (hkeeps : ∀ n, Contains (.stmt body) n → NodeKeeps c n)
    (hsilent : (lowerStmt c body true s).2.reporter.messages = s.reporter.messages) :
    (leaves c (.stmt body)).Subperm (Script.Stmt.block (lowerStmt c body true s).1).marks := by
  rw [List.subperm_iff_count]
  intro m
  -- only the marks are of interest here, so no image is counted
  have hfields : CoversFields c fun _ => true := fun _ _ => rfl
  obtain ⟨reported, hmessages, hretained⟩ :=
    (holds_lowering hfields m fun _ => false).2 body hkeeps true s
  have hnone : reported = [] := by
    rw [hsilent] at hmessages
    exact List.self_eq_append_right.mp hmessages
  have hcount := (hretained hnone).1
  simp only [if_true, List.count_append] at hcount
  simp only [Script.Stmt.marks, List.count_append]
  omega

end Lowering

namespace Session

open Lowering
open Source (Argument Contains Node)

/-- The members that the body refers to are in the program. -/
def RefersInside (s : Session) (b : Body) : Prop :=
  ∀ n, Contains (.stmt b.statement) n → ∀ id ∈ n.members, (s.program.member? id).isSome = true

/-- A body that refers to nothing outside the program is lowered in silence if and only if it is well
formed. -/
lemma silent_statement_iff {s : Session} {b : Body} (hprogram : s.program.Ordered)
    (hmembers : s.RefersInside b) (r : Reporter) :
    let after := (lowerStmt (s.context b) b.statement true { reporter := r }).2
    ∃ reported, after.reporter.messages = r.messages ++ reported ∧
      (reported = [] ↔ WellFormed (s.context b) b.statement { reporter := r }) ∧
      after.dangling = false := by
  have hstatement : AddsStmt (s.context b) True b.statement :=
    (adds_lowering _ True).2 b.statement fun n hn _ id hid =>
      Context.knows_of_isSome hprogram (hmembers n hn id hid)
  obtain ⟨fs, -, hmessages, -, -, hsilent⟩ := (hstatement true).run { reporter := r } trivial
  refine ⟨_, hmessages, ?_, (hsilent trivial).2⟩
  rw [List.map_eq_nil_iff, wellFormed_iff]
  exact (hsilent trivial).1

/-- Compiling a body yields a script, and it reports nothing if and only if the body is well formed.
Then only remarks leave nothing, and the script holds all that is left, if every indexer that became
an element or a field keeps its arguments.  The program may have come about in any way in which a
type is added after the type that encloses it, and a member after its type and after its owner. -/
theorem compileBody_silent_iff (s : Session) (b : Body) (r : Reporter)
    (hprogram : s.program.Ordered) (hmembers : s.RefersInside b) :
    ∃ out after reported, s.compileBody b r = some (out, after) ∧
      after.messages = r.messages ++ reported ∧
      (reported = [] ↔ WellFormed (s.context b) b.statement { reporter := r }) ∧
      (reported = [] → ∀ n, Contains (.stmt b.statement) n →
        (leaves (s.context b) n = [] ↔ IsRemark n)) ∧
      (reported = [] → (∀ n, Contains (.stmt b.statement) n → NodeKeeps (s.context b) n) →
        (leaves (s.context b) (.stmt b.statement)).Subperm (Script.Stmt.block out).marks) := by
  obtain ⟨reported, hmessages, hsilent, hdangling⟩ := silent_statement_iff hprogram hmembers r
  have hcompiled := s.compileBody_eq b r
  rw [hdangling] at hcompiled
  refine ⟨_, _, reported, hcompiled, hmessages, hsilent, fun hnone n hn => ?_,
    fun hnone hkeeps => leaves_subperm_of_silent hkeeps ?_⟩
  · have hproper := (hsilent.mp hnone).proper
    exact leaves_eq_nil_iff fun k hk => hproper k (hn.trans hk)
  · rw [hmessages, hnone, List.append_nil]

/-- A type with an indexer of two parameters and a method. -/
def sampleGrid (naming : Naming) : Session where
  program :=
    { types := [{ name := "Grid", members := [⟨0⟩, ⟨1⟩] }]
      members :=
        [{ name := "Item", kind := .indexer, declaringType := ⟨0⟩, returnType := .int32
           parameters := [{ name := "p", type := .int32 }, { name := "q", type := .int32 }] },
          { name := "Next", kind := .method, declaringType := ⟨0⟩, returnType := .int32 }]
      names := [("Grid", ⟨0⟩)] }
  naming

/-- The sample grew from the empty program. -/
lemma ordered_sampleGrid (naming : Naming) : (sampleGrid naming).program.Ordered :=
  (Program.grown_of_addAll?
    [.type { name := "Grid" },
      .member { name := "Item", kind := .indexer, declaringType := ⟨0⟩, returnType := .int32
                parameters := [{ name := "p", type := .int32 }, { name := "q", type := .int32 }] },
      .member { name := "Next", kind := .method, declaringType := ⟨0⟩, returnType := .int32 }]
    (by decide) (show _ = some (_, _) from rfl)).built.linked.toOrdered

/-- A call of the method. -/
def sampleNext : Source.Expr :=
  .call {} none ⟨1⟩ []

/-- An access to the indexer with a call as its second argument. -/
def sampleEntry : Source.Expr :=
  .indexer {} (.localVar {} ⟨0⟩) ⟨0⟩ [.mk .value (.localVar {} ⟨1⟩), .mk .value sampleNext]

/-- A function that calls the method. -/
def sampleStep : Source.Expr :=
  .lambda {} ⟨0⟩ [] (.expr sampleNext)

/-- An entry grows by a step. -/
def sampleGrowth : Source.Expr :=
  .assign {} (some .add) sampleEntry (.delegateCall {} (.localVar {} ⟨2⟩) [])

/-- A condition that needs its variable from before the assignment. -/
def sampleCondition : Source.Expr :=
  .binary {} .lessThan (.localVar {} ⟨1⟩) (.assign {} none (.localVar {} ⟨1⟩) sampleNext)

/-- A body over a grid, a row and a step. -/
def sampleBody (statements : List Source.Stmt) : Body where
  scope :=
    { entries := [(⟨0⟩, { name := "grid" }), (⟨1⟩, { name := "row" }), (⟨2⟩, { name := "step" })] }
  lambdas := [.mk ⟨0⟩ true []]
  statement := .block {} statements

/-- A remark, a function, and a loop that changes an entry before it tests. -/
def sampleFill : List Source.Stmt :=
  [.comment {} .documentation "Fills the grid.",
    .declare {} [.mk ⟨2⟩ "step" (some sampleStep) {}],
    .doWhile {} (.expr {} sampleGrowth) sampleCondition]

/-- The two samples refer to the members of the grid. -/
lemma refersInside_sampleBody (naming : Naming) {statements : List Source.Stmt}
    (h : statements ∈ [sampleFill, [.expr {} sampleEntry]]) :
    (sampleGrid naming).RefersInside (sampleBody statements) := by
  have hmembers : ∀ n ∈ (Node.stmt (.block {} statements)).nodes, ∀ id ∈ n.members,
      ((sampleGrid naming).program.member? id).isSome = true := by
    rcases List.mem_pair.mp h with rfl | rfl <;>
      simp [sampleFill, sampleStep, sampleGrowth, sampleCondition, sampleEntry, sampleNext,
        Node.nodes_eq, Node.parts, Source.Expr.inTurn, Source.Expr.operands, Argument.value,
        Source.Stmt.expressions, Source.Stmt.statements, Source.Declarator.initializer,
        Node.members, Source.Expr.memberId?, sampleGrid, Program.member?]
  exact fun n hn => hmembers n (Node.mem_nodes_of_contains hn)

/-- With accessors behind the indexer, everything in the loop is kept. -/
theorem compileBody_silent_iff_sampleFill :
    ((sampleGrid {}).program.Ordered ∧ (sampleGrid {}).RefersInside (sampleBody sampleFill)) ∧
    WellFormed ((sampleGrid {}).context (sampleBody sampleFill)) (.block {} sampleFill) {} ∧
    ∃ out after, (sampleGrid {}).compileBody (sampleBody sampleFill) {} = some (out, after) ∧
      after.messages = [] ∧
      (leaves ((sampleGrid {}).context (sampleBody sampleFill)) (.stmt (.block {} sampleFill))).Subperm
        (Script.Stmt.block out).marks := by
  have hmembers : (sampleGrid {}).RefersInside (sampleBody sampleFill) :=
    refersInside_sampleBody {} List.mem_cons_self
  have hkeeps : ∀ n, Contains (.stmt (.block {} sampleFill)) n →
      NodeKeeps ((sampleGrid {}).context (sampleBody sampleFill)) n := by
    have hentry : ((sampleGrid {}).context (sampleBody sampleFill)).KeepsArguments ⟨0⟩ 2 := trivial
    generalize (sampleGrid {}).context (sampleBody sampleFill) = c at hentry ⊢
    have hnodes : ∀ n ∈ (Node.stmt (.block {} sampleFill)).nodes, NodeKeeps c n := by
      simp [sampleFill, sampleStep, sampleGrowth, sampleCondition, sampleEntry, sampleNext,
        Node.nodes_eq, Node.parts, Source.Expr.inTurn, Source.Expr.operands, Argument.value,
        Source.Stmt.expressions, Source.Stmt.statements, Source.Declarator.initializer, NodeKeeps,
        IndexerKeeps, hentry]
    exact fun n hn => hnodes n (Node.mem_nodes_of_contains hn)
  have hlog : ((sampleGrid {}).compileBody (sampleBody sampleFill) {}).map (·.2.messages) =
      some [] := rfl
  obtain ⟨out, after, reported, hcompiled, hmessages, hsilent, -, hretained⟩ :=
    compileBody_silent_iff (sampleGrid {}) (sampleBody sampleFill) {} (ordered_sampleGrid {}) hmembers
  rw [hcompiled] at hlog
  have hafter : after.messages = [] := Option.some.inj hlog
  have hnone : reported = [] := by
    rw [hafter] at hmessages
    exact hmessages.symm
  exact ⟨⟨ordered_sampleGrid {}, hmembers⟩, hsilent.mp hnone, out, after, hcompiled, hafter,
    hretained hnone hkeeps⟩

/-- The indexer as an element of its object. -/
def sampleElement : Naming where
  memberForms := [(⟨0⟩, .nativeIndexer)]

/-- With the indexer as an element, the call in its second argument is lost, though the body is well
formed and nothing is reported. -/
theorem compileBody_drops_argument :
    (sampleGrid sampleElement).program.Ordered ∧
    (sampleGrid sampleElement).RefersInside (sampleBody [.expr {} sampleEntry]) ∧
    WellFormed ((sampleGrid sampleElement).context (sampleBody [.expr {} sampleEntry]))
      (.block {} [.expr {} sampleEntry]) {} ∧
    (Contains (.stmt (.block {} [.expr {} sampleEntry])) (.expr sampleNext) ∧
      ¬ IsRemark (.expr sampleNext) ∧
      Mark.call ∈ own ((sampleGrid sampleElement).context (sampleBody [.expr {} sampleEntry]))
        (.expr sampleNext)) ∧
    ∃ out after, (sampleGrid sampleElement).compileBody (sampleBody [.expr {} sampleEntry]) {} =
        some (out, after) ∧
      after.messages = [] ∧ out = [.expr (.index (.ident "grid") (.ident "row"))] ∧
      Mark.call ∉ (Script.Stmt.block out).marks := by
  have hmembers : (sampleGrid sampleElement).RefersInside (sampleBody [.expr {} sampleEntry]) :=
    refersInside_sampleBody sampleElement (List.mem_cons_of_mem _ List.mem_cons_self)
  obtain ⟨reported, hmessages, hsilent, -⟩ :=
    silent_statement_iff (ordered_sampleGrid sampleElement) hmembers {}
  have hnone : reported = [] := hmessages.symm
  have hcontains : Contains (.stmt (.block {} [.expr {} sampleEntry])) (.expr sampleNext) := by
    have hstatement : Contains (.stmt (.block {} [.expr {} sampleEntry]))
        (.stmt (.expr {} sampleEntry)) := .single List.mem_cons_self
    have hargument : .expr sampleNext ∈ (Node.expr sampleEntry).parts :=
      List.mem_cons_of_mem _ (List.mem_cons_of_mem _ List.mem_cons_self)
    exact (hstatement.tail List.mem_cons_self).tail hargument
  exact ⟨ordered_sampleGrid sampleElement, hmembers, hsilent.mp hnone,
    ⟨hcontains, id, List.mem_cons_self⟩, _, _, rfl, rfl, rfl, by decide⟩

end Session

end ScriptCompiler
