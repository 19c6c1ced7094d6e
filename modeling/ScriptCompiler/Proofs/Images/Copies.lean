import ScriptCompiler.Proofs.Contents.Lowering

/-!
# What is written twice

If lowering reports nothing, the script of an expression holds one image for each invocation, each
creation and each lambda of the expression, and besides them only what the copied functions become
(`lowerExpr_writes_images`).  So everything has exactly one image if and only if no function is copied.
-/

namespace ScriptCompiler.Lowering

open Script (Image)
open Source (Node Argument Contains)

variable {c : Context} {fields : String → Bool}

/-- If lowering reports nothing, the script of an expression has the images of the nodes of the
expression, and once more what the copied functions become.  So every node has exactly its own
images if and only if no function is copied. -/
theorem lowerExpr_writes_images {e : Source.Expr} {important : Bool} {s : State}
    (hfields : CoversFields c fields) (hkeeps : ∀ n, Contains (.expr e) n → NodeKeeps c n)
    (hsilent : (lowerExpr c e important s).2.reporter.messages = s.reporter.messages) :
    ((lowerExpr c e important s).1.images fields).Perm
        (images c fields (.expr e) ++ functionsWritten c fields (copied c important (.expr e))) ∧
      (((lowerExpr c e important s).1.images fields).Perm (images c fields (.expr e)) ↔
        copied c important (.expr e) = []) := by
  have hcount : ∀ p : Image → Bool, ((lowerExpr c e important s).1.images fields).countP p =
      (written c fields important (.expr e)).countP p := by
    intro p
    obtain ⟨reported, hmessages, hQ⟩ := (holds_lowering hfields .new p).1 e hkeeps important s
    have hnone : reported = [] := List.append_right_eq_self.mp (hmessages.symm.trans hsilent)
    exact (hQ hnone).1.2
  have hwritten : ((lowerExpr c e important s).1.images fields).Perm
      (written c fields important (.expr e)) := by
    classical
    exact List.perm_iff_count.mpr fun image => hcount (· == image)
  refine ⟨?_, hwritten.congr_left _ |>.trans (perm_images_iff c fields important (.expr e))⟩
  rw [← written_eq]
  exact hwritten

/-- A property behind accessors and a method. -/
def copiesSample : Context where
  naming :=
    { memberForms := [(⟨0⟩, .property "get_handler" "set_handler"), (⟨1⟩, .method "use")] }
  scope :=
    { entries := [(⟨0⟩, { name := "a" }), (⟨1⟩, { name := "b" }), (⟨2⟩, { name := "o" })] }
  lambdas := .ofForest [.mk ⟨0⟩ false [], .mk ⟨1⟩ false []]

/-- All names but those of the accessors and of the method. -/
def copiesSampleFields (name : String) : Bool :=
  !List.contains ["get_handler", "set_handler", "use"] name

lemma coversFields_copiesSample : CoversFields copiesSample copiesSampleFields := by
  rintro name (rfl | ⟨⟨index⟩, hform⟩)
  · rfl
  · match index with
    | 0 | 1 => rcases hform with hform | hform <;> cases hform
    | index + 2 =>
      rcases hform with hform | hform
      · cases hform
        rfl
      · cases hform

/-- `b.Handler = value` -/
def copiesSampleSet (value : Source.Expr) : Source.Expr :=
  .assign {} none (.property {} (some (.localVar {} ⟨1⟩)) ⟨0⟩) value

/-- `() => o.Use()` -/
def copiesSampleUse (id : LambdaId) : Source.Expr :=
  .lambda {} id [] (.expr (.call {} (some (.localVar {} ⟨2⟩)) ⟨1⟩ []))

/-- `a(b.Handler = o.Use(() => o.Use()), () => o.Use())` -/
def copiesSampleCall : Source.Expr :=
  .delegateCall {} (.localVar {} ⟨0⟩)
    [.mk .value (copiesSampleSet
      (.call {} (some (.localVar {} ⟨2⟩)) ⟨1⟩ [.mk .value (copiesSampleUse ⟨0⟩)])),
     .mk .value (copiesSampleUse ⟨1⟩)]

/-- `a = (b.Handler = () => o.Use())` -/
def copiesSampleChain : Source.Expr :=
  .assign {} none (.localVar {} ⟨0⟩) (copiesSampleSet (copiesSampleUse ⟨0⟩))

lemma nodeKeeps_copiesSample {e : Source.Expr} (he : e ∈ [copiesSampleCall, copiesSampleChain])
    (n : Node) (h : Contains (.expr e) n) : NodeKeeps copiesSample n := by
  have hcall : ∀ m ∈ (Node.expr copiesSampleCall).nodes, NodeKeeps copiesSample m := by
    simp [copiesSampleCall, copiesSampleSet, copiesSampleUse, Node.nodes_eq, Node.parts,
      Source.Expr.inTurn, Source.Expr.operands, Argument.value, NodeKeeps, IndexerKeeps]
  have hchain : ∀ m ∈ (Node.expr copiesSampleChain).nodes, NodeKeeps copiesSample m := by
    simp [copiesSampleChain, copiesSampleSet, copiesSampleUse, Node.nodes_eq, Node.parts,
      Source.Expr.inTurn, Source.Expr.operands, Argument.value, NodeKeeps, IndexerKeeps]
  rcases List.mem_pair.mp he with rfl | rfl
  · exact hcall n (Node.mem_nodes_of_contains h)
  · exact hchain n (Node.mem_nodes_of_contains h)

lemma images_copiesSample :
    images copiesSample copiesSampleFields (.expr copiesSampleCall) =
        [.delegate 2, .method "set_handler" 1, .method "use" 1, .function [], .method "use" 0,
          .function [], .method "use" 0] ∧
      images copiesSample copiesSampleFields (.expr copiesSampleChain) =
        [.method "set_handler" 1, .function [], .method "use" 0] := by
  have hproperty : copiesSample.formOf ⟨0⟩ = .property "get_handler" "set_handler" := rfl
  have hmethod : copiesSample.formOf ⟨1⟩ = .method "use" := rfl
  have hfree : copiesSample.binds ⟨0⟩ = false ∧ copiesSample.binds ⟨1⟩ = false := ⟨rfl, rfl⟩
  simp [images, copiesSampleCall, copiesSampleChain, copiesSampleSet, copiesSampleUse,
    Node.nodes_eq, Node.parts, Source.Expr.inTurn, Source.Expr.operands, Argument.value, ownImages,
    exprImages, methodImages, setterImages, lambdaImages, Context.accessOf, Context.accessTo,
    hasAccessors, Image.ofMember, copiesSampleFields, hproperty, hmethod, hfree.1, hfree.2]

lemma copied_copiesSample :
    copied copiesSample true (.expr copiesSampleCall) = [] ∧
      copied copiesSample true (.expr copiesSampleChain) = [copiesSampleUse ⟨0⟩] := by
  have hproperty : copiesSample.formOf ⟨0⟩ = .property "get_handler" "set_handler" := rfl
  have hfree : copiesSample.binds ⟨0⟩ = false := rfl
  simp [copiesSampleCall, copiesSampleChain, copiesSampleSet, copiesSampleUse, copied_eq,
    nodeCopies, Context.copiedBy, Context.yields, Context.accessOf, Context.accessTo, hasAccessors,
    Node.parts, Node.usesParts, Source.Expr.inTurn, Source.Expr.operands, Argument.value, hproperty,
    hfree]

/-- No function of the call is copied, so it becomes what its nodes become. -/
theorem lowerExpr_writes_images_copiesSampleCall :
    CoversFields copiesSample copiesSampleFields ∧
      (∀ n, Contains (.expr copiesSampleCall) n → NodeKeeps copiesSample n) ∧
      (lowerExpr copiesSample copiesSampleCall true {}).2.reporter.messages = [] ∧
      copied copiesSample true (.expr copiesSampleCall) = [] ∧
      ((lowerExpr copiesSample copiesSampleCall true {}).1.images copiesSampleFields).Perm
        [.delegate 2, .method "set_handler" 1, .method "use" 1, .function [], .method "use" 0,
          .function [], .method "use" 0] := by
  have hkeeps : ∀ n, Contains (.expr copiesSampleCall) n → NodeKeeps copiesSample n :=
    nodeKeeps_copiesSample List.mem_cons_self
  have hsilent : (lowerExpr copiesSample copiesSampleCall true {}).2.reporter.messages = [] := rfl
  obtain ⟨-, hiff⟩ := lowerExpr_writes_images coversFields_copiesSample hkeeps hsilent
  rw [images_copiesSample.1] at hiff
  exact ⟨coversFields_copiesSample, hkeeps, hsilent, copied_copiesSample.1,
    hiff.mpr copied_copiesSample.1⟩

/-- The handler is written twice, with the call inside it, though the source has it once. -/
theorem lowerExpr_copies_function :
    CoversFields copiesSample copiesSampleFields ∧
      (∀ n, Contains (.expr copiesSampleChain) n → NodeKeeps copiesSample n) ∧
      (lowerExpr copiesSample copiesSampleChain true {}).2.reporter.messages = [] ∧
      (lowerExpr copiesSample copiesSampleChain true {}).1.images copiesSampleFields =
        [.method "set_handler" 1, .function [], .method "use" 0, .function [], .method "use" 0] ∧
      images copiesSample copiesSampleFields (.expr copiesSampleChain) =
        [.method "set_handler" 1, .function [], .method "use" 0] ∧
      copied copiesSample true (.expr copiesSampleChain) = [copiesSampleUse ⟨0⟩] :=
  ⟨coversFields_copiesSample,
    nodeKeeps_copiesSample (List.mem_cons_of_mem _ List.mem_cons_self), rfl, rfl,
    images_copiesSample.2, copied_copiesSample.2⟩

end ScriptCompiler.Lowering
