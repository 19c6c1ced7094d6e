import Mathlib.Data.List.Forall2
import Mathlib.Data.List.Induction
import Mathlib.Logic.Relation
import ScriptCompiler.Lowering.Lambda

/-!
# The table of a forest of lambdas

The table is filled in one pass, which adds the entry of a lambda before those of the lambdas
inside it and completes it afterwards, while the table has grown.  `Adds` says what such a step
does: it appends the entries of the lambdas in pre-order, each with its final mark, and keeps the
index in step with the entries (`Aligned`).

What the entries should say is put without the pass: the lambdas are the nodes of the forest, and
one of them uses `this` if it encloses one that reads it, at any depth.
-/

namespace ScriptCompiler

namespace LambdaTree

mutual

/-- Whether the lambda or one inside it reads `this`. -/
def usesThis : LambdaTree → Bool
  | .mk _ readsThis nested => readsThis || anyUsesThis nested

/-- Whether a lambda of the forest uses `this`. -/
def anyUsesThis : List LambdaTree → Bool
  | [] => false
  | tree :: rest => tree.usesThis || anyUsesThis rest

end

mutual

/-- The entries of a lambda and of the lambdas inside it, in pre-order. -/
def entries : LambdaTree → List LambdaEntry
  | .mk id readsThis nested =>
    { id, usesThis := readsThis || anyUsesThis nested } :: forestEntries nested

/-- The entries of a forest, in pre-order. -/
def forestEntries : List LambdaTree → List LambdaEntry
  | [] => []
  | tree :: rest => tree.entries ++ forestEntries rest

end

/-! ## Nodes -/

/-- The id of a lambda. -/
def id : LambdaTree → LambdaId
  | .mk id _ _ => id

/-- Whether the statements of the lambda itself read `this`. -/
def readsThis : LambdaTree → Bool
  | .mk _ readsThis _ => readsThis

/-- The lambdas directly inside a lambda. -/
def nested : LambdaTree → List LambdaTree
  | .mk _ _ nested => nested

mutual

/-- A lambda and the lambdas inside it, in pre-order. -/
def nodes : LambdaTree → List LambdaTree
  | .mk id readsThis nested => .mk id readsThis nested :: forestNodes nested

/-- The lambdas of a forest, in pre-order. -/
def forestNodes : List LambdaTree → List LambdaTree
  | [] => []
  | tree :: rest => tree.nodes ++ forestNodes rest

end

/-- The second lambda is the first one or inside it, at any depth. -/
abbrev Encloses : LambdaTree → LambdaTree → Prop :=
  Relation.ReflTransGen fun outer inner => inner ∈ outer.nested

mutual

lemma usesThis_iff : ∀ tree : LambdaTree,
    tree.usesThis = true ↔ ∃ inner, Encloses tree inner ∧ inner.readsThis = true
  | .mk id own nested => by
    rw [usesThis, Bool.or_eq_true, anyUsesThis_iff nested]
    constructor
    · rintro (hown | ⟨tree, htree, inner, hinner, hreads⟩)
      · exact ⟨_, .refl, hown⟩
      · exact ⟨inner, .head htree hinner, hreads⟩
    · rintro ⟨inner, hinner, hreads⟩
      rcases hinner.cases_head with rfl | ⟨tree, htree, hinner⟩
      · exact .inl hreads
      · exact .inr ⟨tree, htree, inner, hinner, hreads⟩

lemma anyUsesThis_iff : ∀ roots : List LambdaTree, anyUsesThis roots = true ↔
    ∃ tree ∈ roots, ∃ inner, Encloses tree inner ∧ inner.readsThis = true
  | [] => by simp [anyUsesThis]
  | tree :: rest => by
    rw [anyUsesThis, Bool.or_eq_true, usesThis_iff tree, anyUsesThis_iff rest]
    simp only [List.mem_cons, exists_eq_or_imp]

end

/-- The entry that a lambda should have. -/
def entry (tree : LambdaTree) : LambdaEntry where
  id := tree.id
  usesThis := tree.usesThis

mutual

lemma entries_eq_map : ∀ tree : LambdaTree, tree.entries = tree.nodes.map entry
  | .mk _ _ nested => by rw [entries, nodes, List.map_cons, forestEntries_eq_map nested]; rfl

lemma forestEntries_eq_map : ∀ roots : List LambdaTree,
    forestEntries roots = (forestNodes roots).map entry
  | [] => rfl
  | tree :: rest => by
    rw [forestEntries, forestNodes, List.map_append, entries_eq_map tree, forestEntries_eq_map rest]

end

end LambdaTree

namespace LambdaTable

open LambdaTree (anyUsesThis forestEntries forestNodes forestEntries_eq_map Encloses)

/-! ## Filling the table -/

/-- The index lists the ids of the entries with their positions, from the end. -/
def Aligned (t : LambdaTable) : Prop :=
  t.index = (t.entries.map (·.id)).zipIdx.reverse

lemma Aligned.push {t : LambdaTable} (ht : t.Aligned) (entry : LambdaEntry) :
    (t.push entry).Aligned := by
  unfold Aligned at ht ⊢
  simp [LambdaTable.push, ht, List.zipIdx_append]

/-- Completing an entry keeps its id. -/
lemma Aligned.complete {t : LambdaTable} (ht : t.Aligned) (position : ℕ) (usesThis : Bool) :
    (t.complete position usesThis).Aligned := by
  have hids : ∀ (entries : List LambdaEntry) (position : ℕ),
      (entries.modify position ({ · with usesThis })).map (·.id) = entries.map (·.id) := by
    intro entries
    induction entries with
    | nil => simp
    | cons entry entries ih =>
      intro position
      cases position with
      | zero => simp
      | succ position => simp [ih]
  unfold Aligned at ht ⊢
  rw [LambdaTable.complete, hids, ht]

/-- What a step that adds lambdas to `t` yields: whether they use `this`, and the table with their
entries. -/
structure Adds (t : LambdaTable) (usesThis : Bool) (added : List LambdaEntry)
    (result : Bool × LambdaTable) : Prop where
  usesThis : result.1 = usesThis
  entries : result.2.entries = t.entries ++ added
  aligned : t.Aligned → result.2.Aligned

lemma modify_length_append {α : Type} (before after : List α) (a : α) (f : α → α) :
    (before ++ a :: after).modify before.length f = before ++ f a :: after := by
  induction before with
  | nil => simp
  | cons b before ih => simp [ih]

mutual

lemma adds_insert : ∀ (tree : LambdaTree) (t : LambdaTable),
    Adds t tree.usesThis tree.entries (t.insert tree)
  | .mk id readsThis nested, t => by
    have hinside := adds_insertAll nested (t.push { id, usesThis := readsThis })
    rw [insert, LambdaTree.usesThis, LambdaTree.entries, hinside.usesThis]
    refine ⟨rfl, ?_, fun ht => (hinside.aligned (ht.push _)).complete _ _⟩
    -- the entry of the lambda stands where the table ended before
    rw [complete, hinside.entries, push, List.append_assoc, List.singleton_append,
      modify_length_append]

lemma adds_insertAll : ∀ (roots : List LambdaTree) (t : LambdaTable),
    Adds t (anyUsesThis roots) (forestEntries roots) (t.insertAll roots)
  | [], t => ⟨rfl, (List.append_nil _).symm, fun ht => ht⟩
  | tree :: rest, t => by
    have hfirst := adds_insert tree t
    have hrest := adds_insertAll rest (t.insert tree).2
    rw [insertAll, anyUsesThis, forestEntries]
    refine ⟨?_, ?_, fun ht => hrest.aligned (hfirst.aligned ht)⟩
    · rw [hfirst.usesThis, hrest.usesThis]
    · rw [hrest.entries, hfirst.entries, List.append_assoc]

end

lemma entries_ofForest (roots : List LambdaTree) :
    (ofForest roots).entries = forestEntries roots :=
  (adds_insertAll roots {}).entries

lemma aligned_ofForest (roots : List LambdaTree) : (ofForest roots).Aligned :=
  (adds_insertAll roots {}).aligned rfl

/-! ## Lookup -/

/-- The last position of an id leads to the last entry that has it. -/
lemma Aligned.get?_eq {t : LambdaTable} (ht : t.Aligned) (id : LambdaId) :
    t.get? id = t.entries.reverse.find? (·.id == id) := by
  -- the positions are those in every list that begins with the entries
  have hlookup : ∀ entries more : List LambdaEntry,
      ((entries.map (·.id)).zipIdx.reverse.lookup id).bind ((entries ++ more)[·]?) =
        entries.reverse.find? (·.id == id) := by
    intro entries
    induction entries using List.reverseRecOn with
    | nil => simp
    | append_singleton entries entry ih =>
      intro more
      rw [List.map_append, List.map_singleton, List.zipIdx_append, List.reverse_append,
        List.reverse_append, List.zipIdx_singleton, List.reverse_singleton, List.reverse_singleton,
        List.singleton_append, List.singleton_append, List.lookup_cons, List.find?_cons,
        List.append_assoc]
      rw [BEq.comm (a := id)]
      cases entry.id == id with
      | true => simp
      | false => exact ih _
  have h := hlookup t.entries []
  rwa [List.append_nil, ← ht] at h

lemma get?_ofForest (roots : List LambdaTree) (id : LambdaId) :
    (ofForest roots).get? id =
      ((forestNodes roots).reverse.find? (·.id == id)).map LambdaTree.entry := by
  rw [(aligned_ofForest roots).get?_eq, entries_ofForest, forestEntries_eq_map, ← List.map_reverse,
    List.find?_map]
  rfl

/-- The entry says of a lambda whether it encloses one that reads `this`. -/
structure IsEntry (entry : LambdaEntry) (tree : LambdaTree) : Prop where
  id : entry.id = tree.id
  usesThis : entry.usesThis = true ↔ ∃ inner, Encloses tree inner ∧ inner.readsThis = true

lemma isEntry_iff {entry : LambdaEntry} {tree : LambdaTree} :
    IsEntry entry tree ↔ tree.entry = entry := by
  constructor
  · rintro ⟨hid, huses⟩
    rw [← tree.usesThis_iff, ← Bool.eq_iff_iff] at huses
    cases entry
    exact congrArg₂ LambdaEntry.mk hid.symm huses.symm
  · rintro rfl
    exact ⟨rfl, tree.usesThis_iff⟩

/-- The table of a forest has one entry for each lambda, in pre-order, which says whether the lambda
or one inside it reads `this`.  Exactly the ids of lambdas are found, and what is found is the entry
of the last lambda with the id. -/
theorem ofForest_keeps_this (roots : List LambdaTree) :
    (ofForest roots).size = (forestNodes roots).length ∧
      List.Forall₂ IsEntry (ofForest roots).entries (forestNodes roots) ∧
      ∀ id, ((ofForest roots).get? id = none ↔ ∀ tree ∈ forestNodes roots, tree.id ≠ id) ∧
        ∀ entry, (ofForest roots).get? id = some entry ↔
          ∃ before tree after, forestNodes roots = before ++ tree :: after ∧ tree.id = id ∧
            (∀ later ∈ after, later.id ≠ id) ∧ IsEntry entry tree := by
  refine ⟨?_, ?_, fun id => ⟨?_, fun entry => ?_⟩⟩
  · rw [size, entries_ofForest, forestEntries_eq_map, List.length_map]
  · rw [entries_ofForest, forestEntries_eq_map, List.forall₂_map_left_iff, List.forall₂_same]
    exact fun tree _ => isEntry_iff.mpr rfl
  · simp [get?_ofForest]
  · rw [get?_ofForest, Option.map_eq_some_iff]
    constructor
    · rintro ⟨tree, hfound, hentry⟩
      obtain ⟨hid, after, before, hsplit, hafter⟩ := List.find?_eq_some_iff_append.mp hfound
      refine ⟨before.reverse, tree, after.reverse, ?_, beq_iff_eq.mp hid, ?_,
        isEntry_iff.mpr hentry⟩
      · rw [← List.reverse_reverse (forestNodes roots), hsplit]
        simp
      · simpa using hafter
    · rintro ⟨before, tree, after, hsplit, hid, hafter, hentry⟩
      refine ⟨tree, List.find?_eq_some_iff_append.mpr ⟨beq_iff_eq.mpr hid, after.reverse,
        before.reverse, ?_, ?_⟩, isEntry_iff.mp hentry⟩
      · rw [hsplit]
        simp
      · simpa using hafter

end LambdaTable

end ScriptCompiler
