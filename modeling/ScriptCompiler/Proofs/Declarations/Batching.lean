import Mathlib.Data.List.SplitBy
import ScriptCompiler.Proofs.Diagnostics.Findings
import ScriptCompiler.Proofs.Recovery.Deletion

/-!
# Declarations in batches

The declarators of one declaration are lowered in turn.  Each one whose variable has a description
yields a binding and the statements that its initial value needs; `declaredInTurn` lists both.

Bindings are collected until a declarator needs statements.  So the declarators fall into groups, and
each group becomes the statements of its first declarator and one declaration of all its bindings
(`batched_eq_groups`).  A declarator that needs statements starts a new group, and nothing else does
(`lowerStmt_declare_groups`).  One without description leaves the others alone
(`declaredInTurn_filter`).
-/

namespace ScriptCompiler

/-- The statement with the bindings of a declaration in declarations of their own. -/
def Script.Stmt.singly : Script.Stmt → List Script.Stmt
  | .declare bindings => bindings.map fun b => .declare [b]
  | s => [s]

namespace Lowering

/-- What a declarator becomes: the statements that its initial value needs, and its binding. -/
structure Declared where
  hoisted : List Script.Stmt
  binding : Script.Binding

/-- Statements and binding of each declarator that has a description, lowered one after the other
from the given state on. -/
def declaredInTurn (c : Context) : List Source.Declarator → State → List Declared
  | [], _ => []
  | d :: rest, s =>
    let lowered := lowerDeclarator c d s
    (lowered.1.map fun found =>
      { hoisted := found.2.elim [] (·.before)
        binding := bindingOf c found.1 (found.2.map (·.value)) }).toList ++
      declaredInTurn c rest lowered.2

/-- The statements of declarators behind a batch of bindings. -/
def batched (batch : List Script.Binding) : List Declared → List Script.Stmt
  | [] => flush batch
  | d :: rest =>
    if d.hoisted.isEmpty then batched (batch ++ [d.binding]) rest
    else flush batch ++ d.hoisted ++ batched [d.binding] rest

/-- The statements of a group: those of its first declarator, and one declaration. -/
def groupStmts (group : List Declared) : List Script.Stmt :=
  (group.head?.map (·.hoisted)).getD [] ++ [.declare (group.map (·.binding))]

variable (c : Context)

/-- Declarators are lowered in turn and then put into batches. -/
lemma lowerDeclarators_eq_batched (declarators : List Source.Declarator)
    (batch : List Script.Binding) (s : State) :
    (lowerDeclarators c declarators batch s).1 =
      batched batch (declaredInTurn c declarators s) := by
  induction declarators generalizing batch s with
  | nil =>
    unfold lowerDeclarators
    rfl
  | cons d rest ih =>
    have hrun : ∀ next : Option (Variable × Option Lowered) → Lower (List Script.Stmt),
        (lowerDeclarator c d >>= next) s =
          next (lowerDeclarator c d s).1 (lowerDeclarator c d s).2 := fun _ => rfl
    rw [lowerDeclarators_cons, hrun, declaredInTurn]
    cases (lowerDeclarator c d s).1 with
    | none => exact ih _ _
    | some found =>
      obtain ⟨v, value⟩ := found
      simp only [Option.map_some, Option.toList_some, List.cons_append, List.nil_append, batched]
      cases value.elim [] (·.before) with
      | nil => exact ih _ _
      | cons first others =>
        simp only [List.isEmpty_cons, Bool.false_eq_true, if_false, ← ih]
        rfl

/-- Whether a declarator goes on with the group of the one in front of it. -/
def Declared.joins (_ next : Declared) : Bool :=
  next.hoisted.isEmpty

/-- Behind a group that has begun, the declarators split where one needs statements. -/
lemma groupStmts_batched (declared : List Declared) (first : Declared) (others : List Declared)
    (hgroup : (first :: others).IsChain fun d next => Declared.joins d next) :
    first.hoisted ++ batched ((first :: others).map (·.binding)) declared =
      ((first :: others ++ declared).splitBy Declared.joins).flatMap groupStmts := by
  induction declared generalizing first others with
  | nil =>
    rw [List.append_nil, List.splitBy_of_isChain (List.cons_ne_nil _ _) hgroup]
    simp [batched, flush, groupStmts]
  | cons d rest ih =>
    rw [batched]
    by_cases hd : d.hoisted.isEmpty = true
    · have hgrown : (first :: (others ++ [d])).IsChain fun d next => Declared.joins d next :=
        (hgroup.append (.singleton d) fun _ _ next hnext => by
          cases Option.some.inj hnext
          exact hd)
      have happend : first :: others ++ d :: rest = first :: (others ++ [d]) ++ rest := by simp
      rw [if_pos hd, happend, ← ih first (others ++ [d]) hgrown]
      simp
    · have hsplit : (first :: others ++ d :: rest).splitBy Declared.joins =
          [first :: others] ++ (d :: rest).splitBy Declared.joins := by
        rw [List.splitBy_append_cons rest fun _ _ => Bool.eq_false_iff.mpr hd,
          List.splitBy_of_isChain (List.cons_ne_nil _ _) hgroup]
      have hrest := ih d [] (.singleton d)
      rw [if_neg hd, hsplit, List.flatMap_append]
      rw [List.cons_append, List.nil_append] at hrest
      rw [← hrest]
      simp [flush, groupStmts]

/-- The batches are the longest runs of declarators of which only the first needs statements. -/
theorem batched_eq_groups (declared : List Declared) :
    batched [] declared = (declared.splitBy Declared.joins).flatMap groupStmts := by
  cases declared with
  | nil => rfl
  | cons d rest =>
    have hgroups := groupStmts_batched rest d [] (.singleton d)
    rw [List.cons_append, List.nil_append] at hgroups
    rw [← hgroups, batched]
    split <;> simp_all [flush]

/-- One by one, the bindings stand behind the statements of their own declarators, because in a group
only the first declarator has any. -/
lemma flatMap_singly_groupStmts {group : List Declared} (hne : group ≠ [])
    (hgroup : group.IsChain fun _ next => next.hoisted = []) :
    (groupStmts group).flatMap Script.Stmt.singly =
      group.flatMap fun d => d.hoisted.flatMap Script.Stmt.singly ++ [.declare [d.binding]] := by
  have hothers : ∀ {first : Declared} {others : List Declared},
      (first :: others).IsChain (fun _ next => next.hoisted = []) →
      others.map (fun d => Script.Stmt.declare [d.binding]) =
        others.flatMap fun d =>
          d.hoisted.flatMap Script.Stmt.singly ++ [Script.Stmt.declare [d.binding]] := by
    intro first others h
    induction others generalizing first with
    | nil => rfl
    | cons d rest ih =>
      rw [List.isChain_cons_cons] at h
      rw [List.map_cons, List.flatMap_cons, h.1, ih h.2]
      rfl
  cases group with
  | nil => exact absurd rfl hne
  | cons first others =>
    rw [List.flatMap_cons, ← hothers hgroup]
    simp [groupStmts, Script.Stmt.singly, Function.comp_def]

/-! ## Declarators without description -/

/-- Whether the variable of the declarator has a description. -/
def describes (d : Source.Declarator) : Bool :=
  (c.scope.get? d.id).isSome

/-- Declarators without description add nothing and change nothing for the others. -/
theorem declaredInTurn_filter (declarators : List Source.Declarator) {s s' : State}
    (h : Alike s s') :
    declaredInTurn c declarators s = declaredInTurn c (declarators.filter (describes c)) s' := by
  induction declarators generalizing s s' with
  | nil => rfl
  | cons d rest ih =>
    obtain ⟨id, name, initializer, span⟩ := d
    cases hv : c.scope.get? id with
    | none =>
      have hdrop : describes c (.mk id name initializer span) = false := by
        simp [describes, Source.Declarator.id, hv]
      rw [List.filter_cons, hdrop, declaredInTurn, lowerDeclarator, hv]
      exact ih ⟨h.next_eq, h.dangling_eq, h.promote_eq⟩
    | some v =>
      have hkeep : describes c (.mk id name initializer span) = true := by
        simp [describes, Source.Declarator.id, hv]
      have hsame : Recovers Alike SameSite (lowerDeclarator c (.mk id name initializer span))
          (lowerDeclarator c (.mk id name initializer span)) [] := by
        rw [lowerDeclarator, hv]
        exact .located _ ((composed_lowerInitializer c initializer).bind fun _ => .pure _).recovers
      obtain ⟨hvalue, hstate, -⟩ := hsame s s' h
      rw [List.filter_cons, hkeep, if_pos rfl, declaredInTurn, declaredInTurn, hvalue,
        ih hstate.toAlike]

/-! ## Declaration statements -/

/-- The declarators of a declaration fall into groups.  Each group becomes the statements of its
first declarator and one declaration, and a declarator starts a new group exactly if it needs
statements and is not the first of all.  Nothing is lost or moved: binding by binding, each stands
right behind its own statements.  Declarators without description take no part. -/
theorem lowerStmt_declare_groups (span : Span) (declarators : List Source.Declarator)
    (spliced : Bool) (s : State) :
    let located := (setLocation (c.location span) s).2
    let declared := declaredInTurn c declarators located
    let emitted := (lowerStmt c (.declare span declarators) spliced s).1
    (∃ groups : List (List Declared), groups.flatten = declared ∧
      emitted = groups.flatMap groupStmts ∧
      (∀ group ∈ groups, group ≠ [] ∧ group.IsChain fun _ next => next.hoisted = []) ∧
      groups.IsChain fun _ group => ∃ first ∈ group.head?, first.hoisted ≠ []) ∧
    emitted.flatMap Script.Stmt.singly =
      declared.flatMap (fun d =>
        d.hoisted.flatMap Script.Stmt.singly ++ [.declare [d.binding]]) ∧
    declared = declaredInTurn c (declarators.filter (describes c)) located := by
  intro located declared emitted
  have hemitted : emitted = (declared.splitBy Declared.joins).flatMap groupStmts := by
    rw [← batched_eq_groups, ← lowerDeclarators_eq_batched]
    simp only [emitted, lowerStmt]
    rfl
  have hgroup : ∀ group ∈ declared.splitBy Declared.joins,
      group ≠ [] ∧ group.IsChain fun _ next => next.hoisted = [] := by
    intro group hmem
    refine ⟨List.ne_nil_of_mem_splitBy hmem, (List.isChain_of_mem_splitBy hmem).imp ?_⟩
    intro _ next hjoins
    exact List.isEmpty_iff.mp hjoins
  refine ⟨⟨declared.splitBy Declared.joins, List.flatten_splitBy _ _, hemitted, hgroup, ?_⟩, ?_,
    declaredInTurn_filter c declarators ⟨rfl, rfl, rfl⟩⟩
  · refine (List.isChain_getLast_head_splitBy Declared.joins declared).imp ?_
    rintro _ group ⟨_, hne, hsplits⟩
    refine ⟨group.head hne, List.head?_eq_some_head hne, fun hempty => ?_⟩
    simp [Declared.joins, hempty] at hsplits
  · have hsingly : (declared.splitBy Declared.joins).flatMap
        (fun group => (groupStmts group).flatMap Script.Stmt.singly) =
          (declared.splitBy Declared.joins).flatMap fun group => group.flatMap fun d =>
            d.hoisted.flatMap Script.Stmt.singly ++ [.declare [d.binding]] :=
      List.flatMap_congr fun group hmem =>
        flatMap_singly_groupStmts (hgroup group hmem).1 (hgroup group hmem).2
    rw [hemitted, List.flatMap_assoc, hsingly, ← List.flatMap_assoc, List.flatMap_id',
      List.flatten_splitBy]

/-- A type with a property, and the variables of the following example that are described. -/
def sampleScope : Context where
  program :=
    { types := [{ name := "Box", members := [⟨0⟩] }]
      members := [{ name := "Size", kind := .property, declaringType := ⟨0⟩, returnType := .int32 }]
      names := [("Box", ⟨0⟩)] }
  scope :=
    { entries := [(⟨0⟩, { name := "a" }), (⟨1⟩, { name := "b" }), (⟨2⟩, { name := "c" }),
        (⟨3⟩, { name := "d" })] }

/-- A declaration of five variables.  The second one has no description and does not separate its
neighbours.  The value of `c` sets the property, and so it starts a group, which `d` joins. -/
example :
    (lowerStmt sampleScope (.declare {}
      [.mk ⟨0⟩ "a" none {}, .mk ⟨7⟩ "x" none {}, .mk ⟨1⟩ "b" (some (.localVar {} ⟨0⟩)) {},
        .mk ⟨2⟩ "c" (some (.assign {} none (.property {} (some (.localVar {} ⟨0⟩)) ⟨0⟩)
          (.localVar {} ⟨1⟩))) {},
        .mk ⟨3⟩ "d" none {}]) false {}).1 =
      [.declare [.mk "a" none, .mk "b" (some (.ident "a"))],
        .declare [.mk "$t1" (some (.ident "b"))],
        .expr (.call (.member (.ident "a") "set_Size") [.ident "$t1"]),
        .declare [.mk "c" (some (.ident "$t1")), .mk "d" none]] := by
  rfl

end Lowering

end ScriptCompiler
