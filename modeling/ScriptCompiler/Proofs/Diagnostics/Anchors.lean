import ScriptCompiler.Proofs.Diagnostics.Findings

/-!
# Where messages point

The messages of a body are exactly the findings of its constructs, and each of them points at the
innermost anchor around the construct that tells it (`Session.compileBody_messages_anchored`).
-/

namespace ScriptCompiler

namespace Lowering

variable {c : Context}

variable (c) in
/-- `Anchored c root x a` says that `x` stands inside `root`, and that `a` is the innermost anchor
around it, or `x` itself. -/
inductive Anchored (root : Construct) : Construct → Span → Prop where
  | root {a : Span} : root.anchor = some a → Anchored root root a
  | inside {x y : Construct} {a : Span} :
    Anchored root x a → .enters y ∈ items c x → Anchored root y (y.anchor.getD a)

/-- Every finding is told by a construct, and points at the anchor of that construct. -/
lemma Raises.told_by {a : Span} {xs : List Item} {root x : Construct} {fs : List Finding}
    (h : Raises c a xs fs) (hxs : ∀ item ∈ xs, item ∈ items c x) (hx : Anchored c root x a) :
    ∀ f ∈ fs, ∃ y, Anchored c root y f.anchor ∧
      (.tells f.message f.argument ∈ items c y ∨ .mayTell f.message f.argument ∈ items c y) := by
  induction h generalizing x with
  | nil => exact fun f hf => by cases hf
  | tells _ ih =>
    obtain ⟨hfirst, hrest⟩ := List.forall_mem_cons.mp hxs
    exact List.forall_mem_cons.mpr ⟨⟨x, hx, .inl hfirst⟩, ih hrest hx⟩
  | told _ ih =>
    obtain ⟨hfirst, hrest⟩ := List.forall_mem_cons.mp hxs
    exact List.forall_mem_cons.mpr ⟨⟨x, hx, .inr hfirst⟩, ih hrest hx⟩
  | untold _ ih => exact ih (List.forall_mem_cons.mp hxs).2 hx
  | enters _ _ ihinner ih =>
    obtain ⟨hfirst, hrest⟩ := List.forall_mem_cons.mp hxs
    exact List.forall_mem_append.mpr
      ⟨ihinner (fun _ hitem => hitem) (.inside hx hfirst), ih hrest hx⟩

end Lowering

namespace Session

open Lowering

/-- The messages of a body are, in order, the findings of its constructs.  Each of them is told by a
construct of the body, and its location is that of the innermost statement, declarator or condition
behind a loop body around that construct, in the file of the body. -/
theorem compileBody_messages_anchored (s : Session) (b : Body) (r r' : Reporter)
    (out : List Script.Stmt) (h : s.compileBody b r = some (out, r')) :
    ∃ fs, Raises (s.context b) b.statement.span (items (s.context b) (.stmt b.statement)) fs ∧
      r'.messages = r.messages ++ fs.map (Finding.reported (s.context b) r.promoteWarnings) ∧
      ∀ f ∈ fs,
        (Finding.reported (s.context b) r.promoteWarnings f).location = ⟨b.file, f.anchor⟩ ∧
        ∃ x, Anchored (s.context b) (.stmt b.statement) x f.anchor ∧
          (.tells f.message f.argument ∈ items (s.context b) x ∨
            .mayTell f.message f.argument ∈ items (s.context b) x) := by
  rw [compileBody_eq] at h
  split at h
  · cases h
  · obtain ⟨fs, hfs, hmessages, -⟩ :=
      (addsStmt_false (s.context b) b.statement true).run { reporter := r } trivial
    obtain ⟨rfl, rfl⟩ := Prod.mk.inj (Option.some.inj h)
    have hroot : Anchored (s.context b) (.stmt b.statement) (.stmt b.statement) b.statement.span :=
      .root rfl
    have htold := hfs.told_by (x := .stmt b.statement) (fun _ hitem => hitem) hroot
    exact ⟨fs, hfs, hmessages, fun f hf => ⟨rfl, htold f hf⟩⟩

/-- `var f = f(() => { throw; }, x);` with the declarator on line 2, the body of the function on
line 3 and no description of `x`. -/
def sampleAnchors : Body where
  file := "sample"
  scope := { entries := [(⟨0⟩, { name := "f" })] }
  lambdas := [.mk ⟨0⟩ false []]
  statement := .declare { line := 1 } [.mk ⟨0⟩ "f" (some (.delegateCall {} (.localVar {} ⟨0⟩)
    [.mk .value (.lambda {} ⟨0⟩ [] (.block [.throw { line := 3 } none])),
      .mk .value (.localVar {} ⟨7⟩)])) { line := 2 }]

/-- In the sample, the message behind the function points at the declarator again. -/
theorem compileBody_messages_anchored_sampleAnchors :
    ∃ out r' fs, ({} : Session).compileBody sampleAnchors {} = some (out, r') ∧
      Raises (({} : Session).context sampleAnchors) { line := 1 }
        (items (({} : Session).context sampleAnchors) (.stmt sampleAnchors.statement)) fs ∧
      r'.messages = fs.map (Finding.reported (({} : Session).context sampleAnchors) false) ∧
      r'.messages.map (·.location) = [⟨"sample", { line := 3 }⟩, ⟨"sample", { line := 2 }⟩] := by
  obtain ⟨fs, hfs, hmessages, -⟩ := compileBody_messages_anchored {} sampleAnchors {} _ _ rfl
  exact ⟨_, _, fs, rfl, hfs, hmessages, rfl⟩

end Session

end ScriptCompiler
