import Mathlib.Data.Fintype.Card
import Mathlib.Data.Fintype.EquivFin
import Mathlib.Data.List.Perm.Subperm
import Mathlib.Logic.Relation
import ScriptCompiler.Metadata.Module

/-!
# Chains of enclosing types

A nested type refers to the type that encloses it by position, and nothing in a list of types says
that the position is there or that following it ends.  Two loops follow these positions, each for at
most as many steps as there are types: the check of a module that is read and the full name of a
type.  Both are compared with `Chain`, the chain itself.

A position has one chain only (`Chain.unique`), so the positions on a chain, whose own chains are
of different lengths, are all different, and the chain is no longer than there are types
(`Chain.length_le`).  So both loops go on for long enough, and a loop that goes on for longer runs
in a circle.
-/

namespace ScriptCompiler.Metadata

open Relation (TransGen)

/-- The chain of enclosing types of the type at a position, outermost first.  It stays among the
types and begins with a type that is not nested. -/
inductive Chain (types : List TypeEntry) : ℕ → List TypeEntry → Prop
  | top {i : ℕ} {t : TypeEntry} : types[i]? = some t → t.enclosing = none → Chain types i [t]
  | nested {i : ℕ} {t : TypeEntry} {outer : UInt32} {chain : List TypeEntry} :
      types[i]? = some t → t.enclosing = some outer → Chain types outer.toNat chain →
        Chain types i (chain ++ [t])

/-- The full name that a chain spells: the path of the outermost type, then all names joined by
`+`. -/
def spelled : List TypeEntry → String
  | [] => ""
  | outermost :: inner =>
    let names := "+".intercalate (outermost.name :: inner.map (·.name))
    if outermost.path.isEmpty then names else outermost.path ++ "." ++ names

variable {types : List TypeEntry} {i : ℕ} {t : TypeEntry} {chain : List TypeEntry}

namespace Chain

lemma ne_nil (h : Chain types i chain) : chain ≠ [] := by
  cases h <;> simp

/-- Only the positions of types have chains. -/
lemma lt_length (h : Chain types i chain) : i < types.length := by
  cases h with
  | top ht _ | nested ht _ _ => exact (List.getElem?_eq_some_iff.mp ht).1

/-- The chain of a type that is not nested is the type. -/
lemma iff_of_top (ht : types[i]? = some t) (htop : t.enclosing = none) :
    Chain types i chain ↔ chain = [t] := by
  constructor
  · intro h
    cases h with
    | top ht' _ => rw [Option.some.inj (ht.symm.trans ht')]
    | nested ht' houter _ =>
      obtain rfl := Option.some.inj (ht.symm.trans ht')
      rw [htop] at houter
      cases houter
  · rintro rfl
    exact .top ht htop

/-- The chain of a nested type is the chain of the type that encloses it, and the type. -/
lemma iff_of_nested (ht : types[i]? = some t) {outer : UInt32} (houter : t.enclosing = some outer) :
    Chain types i chain ↔ ∃ front, Chain types outer.toNat front ∧ chain = front ++ [t] := by
  constructor
  · intro h
    cases h with
    | top ht' htop =>
      obtain rfl := Option.some.inj (ht.symm.trans ht')
      rw [htop] at houter
      cases houter
    | @nested _ _ _ front ht' houter' hfront =>
      obtain rfl := Option.some.inj (ht.symm.trans ht')
      obtain rfl := Option.some.inj (houter.symm.trans houter')
      exact ⟨front, hfront, rfl⟩
  · rintro ⟨front, hfront, rfl⟩
    exact .nested ht houter hfront

lemma unique (h : Chain types i chain) {other : List TypeEntry} (hother : Chain types i other) :
    chain = other := by
  induction h generalizing other with
  | top ht htop => exact ((iff_of_top ht htop).mp hother).symm
  | nested ht houter _ ih =>
    obtain ⟨front, hfront, rfl⟩ := (iff_of_nested ht houter).mp hother
    rw [ih hfront]

/-- The positions on a chain are all different: each has a chain of another length. -/
lemma exists_positions (h : Chain types i chain) :
    ∃ positions : List ℕ, positions.length = chain.length ∧ positions.Nodup ∧
      ∀ j ∈ positions, ∃ own, Chain types j own ∧ own.length ≤ chain.length := by
  induction h with
  | @top i t ht htop =>
    refine ⟨[i], rfl, List.nodup_singleton i, fun j hj => ?_⟩
    rw [List.mem_singleton.mp hj]
    exact ⟨[t], .top ht htop, Nat.le_refl _⟩
  | @nested i t outer chain ht houter hchain ih =>
    obtain ⟨positions, hlength, hnodup, hown⟩ := ih
    have hnew : i ∉ positions := by
      intro hi
      obtain ⟨own, hi, hle⟩ := hown i hi
      rw [hi.unique (.nested ht houter hchain), List.length_append, List.length_singleton] at hle
      omega
    refine ⟨i :: positions, by simp [hlength], List.nodup_cons.mpr ⟨hnew, hnodup⟩, ?_⟩
    intro j hj
    rcases List.mem_cons.mp hj with rfl | hj
    · exact ⟨_, .nested ht houter hchain, Nat.le_refl _⟩
    · obtain ⟨own, hj, hle⟩ := hown j hj
      exact ⟨own, hj, by rw [List.length_append]; omega⟩

/-- A chain is no longer than there are types. -/
lemma length_le (h : Chain types i chain) : chain.length ≤ types.length := by
  obtain ⟨positions, hlength, hnodup, hown⟩ := h.exists_positions
  have hsubset : positions ⊆ List.range types.length := by
    intro j hj
    obtain ⟨own, hj, -⟩ := hown j hj
    exact List.mem_range.mpr hj.lt_length
  rw [← hlength]
  simpa using (List.subperm_of_subset hnodup hsubset).length_le

/-- One more name behind those of a chain. -/
lemma spelled_concat (h : Chain types i chain) :
    spelled (chain ++ [t]) = spelled chain ++ "+" ++ t.name := by
  cases hchain : chain with
  | nil => exact absurd hchain h.ne_nil
  | cons outermost inner =>
    have hnames : "+".intercalate (outermost.name :: (inner ++ [t]).map (·.name)) =
        "+".intercalate (outermost.name :: inner.map (·.name)) ++ "+" ++ t.name := by
      rw [List.map_append, ← List.cons_append, String.intercalate_append_of_ne_nil (by simp)
        (by simp), List.map_singleton, String.intercalate_singleton]
    simp only [List.cons_append, spelled, hnames]
    split <;> simp only [String.append_assoc]

end Chain

/-! ## The two loops -/

/-- The check follows a chain to its end if it has at most one type more than there are steps. -/
lemma badEnclosing?_eq_none_iff (ht : types[i]? = some t) (steps : ℕ) :
    badEnclosing? types steps t.enclosing = none ↔
      ∃ chain, Chain types i chain ∧ chain.length ≤ steps + 1 := by
  induction steps generalizing i t with
  | zero =>
    cases houter : t.enclosing with
    | none => simp [badEnclosing?, Chain.iff_of_top ht houter]
    | some outer =>
      simp only [badEnclosing?, Chain.iff_of_nested ht houter, reduceCtorEq, false_iff]
      rintro ⟨-, ⟨front, hfront, rfl⟩, hlength⟩
      have hpos := List.length_pos_of_ne_nil hfront.ne_nil
      rw [List.length_append, List.length_singleton] at hlength
      omega
  | succ steps ih =>
    cases houter : t.enclosing with
    | none => simp [badEnclosing?, Chain.iff_of_top ht houter]
    | some outer =>
      rw [badEnclosing?]
      cases hfound : types[outer.toNat]? with
      | none =>
        simp only [Chain.iff_of_nested ht houter, reduceCtorEq, false_iff]
        rintro ⟨-, ⟨front, hfront, rfl⟩, -⟩
        exact absurd hfront.lt_length (Nat.not_lt.mpr (List.getElem?_eq_none_iff.mp hfound))
      | some enclosing =>
        simp only [ih hfound, Chain.iff_of_nested ht houter]
        constructor
        · rintro ⟨front, hfront, hlength⟩
          exact ⟨_, ⟨front, hfront, rfl⟩, by simpa using hlength⟩
        · rintro ⟨-, ⟨front, hfront, rfl⟩, hlength⟩
          exact ⟨front, hfront, by simpa using hlength⟩

/-- The full name is found within a depth if the chain is no longer, and is the one that the chain
spells. -/
lemma fullNameWithin_eq_some_iff {depth : ℕ} {name : String} :
    fullNameWithin types depth i = some name ↔
      ∃ chain, Chain types i chain ∧ chain.length ≤ depth ∧ spelled chain = name := by
  induction depth generalizing i name with
  | zero =>
    simp only [fullNameWithin, reduceCtorEq, Nat.le_zero, List.length_eq_zero_iff, false_iff]
    rintro ⟨chain, hchain, hnil, -⟩
    exact hchain.ne_nil hnil
  | succ depth ih =>
    rw [fullNameWithin]
    cases ht : types[i]? with
    | none =>
      simp only [Option.bind_eq_bind, Option.bind_none, reduceCtorEq, false_iff]
      rintro ⟨chain, hchain, -⟩
      exact absurd hchain.lt_length (Nat.not_lt.mpr (List.getElem?_eq_none_iff.mp ht))
    | some t =>
      cases houter : t.enclosing with
      | none => simp [Chain.iff_of_top ht houter, houter, spelled]
      | some outer =>
        simp only [Option.bind_eq_bind, Option.bind_some, houter, Option.bind_eq_some_iff,
          Option.pure_def, Option.some.injEq, ih, Chain.iff_of_nested ht houter]
        constructor
        · rintro ⟨-, ⟨front, hfront, hlength, rfl⟩, rfl⟩
          exact ⟨_, ⟨front, hfront, rfl⟩, by simpa using hlength, hfront.spelled_concat⟩
        · rintro ⟨-, ⟨front, hfront, rfl⟩, hlength, rfl⟩
          exact ⟨_, ⟨front, hfront, by simpa using hlength, rfl⟩, hfront.spelled_concat.symm⟩

lemma forM_eq_ok_iff {ε α : Type} {f : α → Except ε Unit} {items : List α} :
    items.forM f = .ok () ↔ ∀ a ∈ items, f a = .ok () := by
  induction items with
  | nil => exact ⟨fun _ => List.forall_mem_nil _, fun _ => rfl⟩
  | cons a items ih =>
    rw [List.forall_mem_cons, List.forM]
    cases ha : f a with
    | error e => exact ⟨fun h => (by cases h), fun h => (by cases h.1)⟩
    | ok u => exact ⟨fun h => ⟨rfl, ih.mp h⟩, fun h => ih.mpr h.2⟩

/-- The reader accepts types that all have chains. -/
lemma checkEnclosing_eq_ok_iff : checkEnclosing types = .ok () ↔
    ∀ i < types.length, ∃ chain, Chain types i chain := by
  have hcheck : ∀ {i t}, types[i]? = some t →
      (badEnclosing? types types.length t.enclosing = none ↔ ∃ chain, Chain types i chain) := by
    intro i t ht
    rw [badEnclosing?_eq_none_iff ht]
    exact exists_congr fun chain => and_iff_left_of_imp fun h => Nat.le_succ_of_le h.length_le
  rw [checkEnclosing, forM_eq_ok_iff, List.forall_mem_iff_getElem]
  refine forall₂_congr fun i hi => ?_
  rw [← hcheck (List.getElem?_eq_getElem hi)]
  cases badEnclosing? types types.length types[i].enclosing with
  | none => exact ⟨fun _ => rfl, fun _ => rfl⟩
  | some i => exact ⟨fun h => (by cases h), fun h => (by cases h)⟩

/-! ## Chains and cycles -/

/-- The type at position `i` is nested directly in the type at position `j`. -/
def EnclosedBy (types : List TypeEntry) (i j : ℕ) : Prop :=
  ∃ t, types[i]? = some t ∧ ∃ k, t.enclosing = some k ∧ k.toNat = j

/-- Enclosing types are among the types. -/
def EnclosingInside (types : List TypeEntry) : Prop :=
  ∀ t ∈ types, ∀ k ∈ t.enclosing, k.toNat < types.length

instance (types : List TypeEntry) : Decidable (EnclosingInside types) :=
  decidable_of_iff (types.all fun t => t.enclosing.all fun k => k.toNat < types.length) (by
    simp [EnclosingInside, Option.all_eq_true])

/-- No type is nested in itself, directly or through others. -/
def EnclosingAcyclic (types : List TypeEntry) : Prop :=
  ∀ i, ¬ TransGen (EnclosedBy types) i i

/-- Types that stand behind the types that enclose them are not nested in themselves. -/
lemma enclosingAcyclic_of_lt (h : ∀ i j, EnclosedBy types i j → j < i) :
    EnclosingAcyclic types := by
  intro i hcycle
  have hlt : ∀ {j}, TransGen (EnclosedBy types) i j → j < i := by
    intro j hij
    induction hij with
    | single hij => exact h _ _ hij
    | tail _ hij ih => exact (h _ _ hij).trans ih
  exact Nat.lt_irrefl i (hlt hcycle)

/-- The chain of what a type is nested in is shorter. -/
lemma Chain.exists_shorter (h : Chain types i chain) {j : ℕ}
    (hij : TransGen (EnclosedBy types) i j) :
    ∃ front, Chain types j front ∧ front.length < chain.length := by
  induction hij with
  | single hij =>
    obtain ⟨t, ht, outer, houter, rfl⟩ := hij
    obtain ⟨front, hfront, rfl⟩ := (iff_of_nested ht houter).mp h
    exact ⟨front, hfront, by simp⟩
  | tail _ hij ih =>
    obtain ⟨t, ht, outer, houter, rfl⟩ := hij
    obtain ⟨chain, hchain, hlength⟩ := ih
    obtain ⟨front, hfront, rfl⟩ := (iff_of_nested ht houter).mp hchain
    rw [List.length_append] at hlength
    exact ⟨front, hfront, by omega⟩

/-- Among finitely many types that are not nested in themselves, every chain ends. -/
lemma exists_chain (hinside : EnclosingInside types) (hacyclic : EnclosingAcyclic types)
    (hi : i < types.length) : ∃ chain, Chain types i chain := by
  let nested : Fin types.length → Fin types.length → Prop :=
    fun j i => TransGen (EnclosedBy types) i j
  have : IsTrans _ nested := ⟨fun _ _ _ hij hjk => TransGen.trans hjk hij⟩
  have : Std.Irrefl nested := ⟨fun i => hacyclic i⟩
  have hwf : WellFounded nested := Finite.wellFounded_of_trans_of_irrefl nested
  suffices h : ∀ i : Fin types.length, ∃ chain, Chain types i chain from h ⟨i, hi⟩
  intro i
  induction i using hwf.induction with
  | _ i ih =>
    have ht := List.getElem?_eq_getElem i.isLt
    cases houter : types[i].enclosing with
    | none => exact ⟨_, .top ht houter⟩
    | some outer =>
      have hlt := hinside _ (List.getElem_mem i.isLt) outer houter
      obtain ⟨chain, hchain⟩ := ih ⟨outer.toNat, hlt⟩ (.single ⟨_, ht, outer, houter, rfl⟩)
      exact ⟨_, .nested ht houter hchain⟩

/-- The reader accepts types whose chains stay inside and do not run in a circle. -/
lemma checkEnclosing_eq_ok_iff_acyclic :
    checkEnclosing types = .ok () ↔ EnclosingInside types ∧ EnclosingAcyclic types := by
  rw [checkEnclosing_eq_ok_iff]
  refine ⟨fun h => ⟨?_, ?_⟩, fun h i hi => exists_chain h.1 h.2 hi⟩
  · intro t ht outer houter
    obtain ⟨i, hi⟩ := List.getElem?_of_mem ht
    obtain ⟨chain, hchain⟩ := h i (List.getElem?_eq_some_iff.mp hi).1
    obtain ⟨front, hfront, -⟩ := (Chain.iff_of_nested hi houter).mp hchain
    exact hfront.lt_length
  · intro i hcycle
    obtain ⟨j, ⟨t, ht, -⟩, -⟩ := TransGen.head'_iff.mp hcycle
    obtain ⟨chain, hchain⟩ := h i (List.getElem?_eq_some_iff.mp ht).1
    obtain ⟨front, hfront, hlength⟩ := hchain.exists_shorter hcycle
    rw [hfront.unique hchain] at hlength
    exact Nat.lt_irrefl _ hlength

namespace Module

lemma fullName?_eq_some_iff {m : Module} {name : String} :
    m.fullName? i = some name ↔ ∃ chain, Chain m.types i chain ∧ spelled chain = name := by
  rw [fullName?, fullNameWithin_eq_some_iff]
  exact exists_congr fun chain => and_congr_right fun h =>
    and_iff_right (Nat.le_succ_of_le h.length_le)

/-- The check of a module that is read and the full names agree on which chains of enclosing types
are good: the check finds nothing exactly if every type has a full name, and exactly if every chain
stays among the types and ends.  The full name is the path of the outermost type, followed by the
names on the chain. -/
theorem checkEnclosing_iff_fullName? (m : Module) :
    (checkEnclosing m.types = .ok () ↔ ∀ i < m.types.length, (m.fullName? i).isSome) ∧
      (checkEnclosing m.types = .ok () ↔ ∀ i < m.types.length, ∃ chain, Chain m.types i chain) ∧
      ∀ i chain, Chain m.types i chain → m.fullName? i = some (spelled chain) := by
  have hname : ∀ i chain, Chain m.types i chain → m.fullName? i = some (spelled chain) :=
    fun i chain h => fullName?_eq_some_iff.mpr ⟨chain, h, rfl⟩
  refine ⟨checkEnclosing_eq_ok_iff.trans (forall₂_congr fun i _ => ⟨?_, ?_⟩),
    checkEnclosing_eq_ok_iff, hname⟩
  · rintro ⟨chain, h⟩
    rw [hname i chain h]
    rfl
  · intro hsome
    obtain ⟨name, h⟩ := Option.isSome_iff_exists.mp hsome
    obtain ⟨chain, hchain, -⟩ := fullName?_eq_some_iff.mp h
    exact ⟨chain, hchain⟩

end Module

end ScriptCompiler.Metadata
