import ScriptCompiler.Proofs.Program.Arenas

/-!
# Members that share a script name

By default a member is called through one or two functions of its type.  Overloads of one name and
one kind are told apart by their numbers, so they never share a function (`overloadIndex_inj`); but
properties and indexers have no numbers, the numbers are counted for each name apart, and the names
lose the case of their first letter.

`Clash` lists what is left: two members of a type share a function exactly if they clash.
-/

namespace ScriptCompiler

/-! ## Numerals behind `$` -/

/-- Different numbers have different numerals. -/
lemma toString_injective : Function.Injective (toString : Nat → String) := by
  intro k n h
  have hdigits : Nat.toDigits 10 k = Nat.toDigits 10 n := by
    change k.repr = n.repr at h
    rw [Nat.repr_eq_ofList_toDigits, Nat.repr_eq_ofList_toDigits] at h
    exact String.ofList_injective h
  calc k = Nat.ofDigitChars 10 (Nat.toDigits 10 k) 0 := Nat.ofDigitChars_ten_toDigits.symm
    _ = Nat.ofDigitChars 10 (Nat.toDigits 10 n) 0 := by rw [hdigits]
    _ = n := Nat.ofDigitChars_ten_toDigits

/-- Numerals consist of digits. -/
lemma isDigit_of_mem_toString {n : Nat} {c : Char} (h : c ∈ (toString n).toList) :
    c.isDigit := by
  change c ∈ n.repr.toList at h
  rw [Nat.repr_eq_ofList_toDigits, String.toList_ofList] at h
  exact Nat.isDigit_of_mem_toDigits (by decide) (by decide) h

/-- Lists are split in one way before the first occurrence of an item. -/
lemma eq_of_append_cons_eq {α : Type} {c : α} {d e x y : List α} (hd : c ∉ d) (he : c ∉ e)
    (h : d ++ c :: x = e ++ c :: y) : d = e ∧ x = y := by
  induction d generalizing e with
  | nil =>
    cases e with
    | nil => simpa using h
    | cons b e =>
      obtain ⟨rfl, -⟩ := List.cons.inj h
      simp at he
  | cons a d ih =>
    cases e with
    | nil =>
      obtain ⟨rfl, -⟩ := List.cons.inj h
      simp at hd
    | cons b e =>
      obtain ⟨rfl, hrest⟩ := List.cons.inj h
      obtain ⟨rfl, hxy⟩ :=
        ih (List.not_mem_of_not_mem_cons hd) (List.not_mem_of_not_mem_cons he) hrest
      exact ⟨rfl, hxy⟩

/-- The last `$` splits a name in one way. -/
lemma eq_of_append_dollar {a b u v : String} (hu : '$' ∉ u.toList) (hv : '$' ∉ v.toList)
    (h : a ++ "$" ++ u = b ++ "$" ++ v) : a = b ∧ u = v := by
  have hu' : '$' ∉ u.toList.reverse := by simpa using hu
  have hv' : '$' ∉ v.toList.reverse := by simpa using hv
  have hlists := congrArg (fun s => s.toList.reverse) h
  simp only [String.toList_append, List.reverse_append, List.append_assoc] at hlists
  obtain ⟨hbehind, hahead⟩ := eq_of_append_cons_eq hu' hv' hlists
  exact ⟨String.toList_injective (List.reverse_inj.mp hahead),
    String.toList_injective (List.reverse_inj.mp hbehind)⟩

lemma dollar_notMem_toString (n : Nat) : '$' ∉ (toString n).toList := by
  intro h
  exact absurd (isDigit_of_mem_toString h) (by decide)

namespace Naming

/-- Two numbered names agree if names and numbers do, or if one of the names ends in the number of
the other. -/
lemma numbered_eq_numbered_iff {a b : String} {i j : Nat} :
    numbered a i = numbered b j ↔ a = b ∧ i = j ∨
      i = 0 ∧ j ≠ 0 ∧ a = b ++ "$" ++ toString j ∨
      j = 0 ∧ i ≠ 0 ∧ b = a ++ "$" ++ toString i := by
  unfold numbered
  by_cases hi : i = 0
  · by_cases hj : j = 0
    · simp [hi, hj]
    · simp [hi, hj, Ne.symm hj]
  · by_cases hj : j = 0
    · simp [hi, hj, eq_comm]
    · simp only [hi, hj, if_false, false_and, or_false]
      constructor
      · intro h
        obtain ⟨hname, hnumber⟩ :=
          eq_of_append_dollar (dollar_notMem_toString i) (dollar_notMem_toString j) h
        exact ⟨hname, toString_injective hnumber⟩
      · rintro ⟨rfl, rfl⟩
        rfl

end Naming

/-! ## Numbers of overloads -/

namespace Program

/-- Every member is in the list of its declaring type. -/
def Listed (p : Program) : Prop :=
  ∀ {id m}, p.member? id = some m → ∃ d, p.type? m.declaringType = some d ∧ id ∈ d.members

variable {p grown : Program}

/-- A type more leaves the members in their lists. -/
lemma Listed.addType (hp : p.Listed) {d : TypeDefinition} {id : TypeId}
    (h : p.addType? d = some (grown, id)) : grown.Listed := by
  obtain ⟨-, hmembers, -⟩ := of_addType?_eq_some h
  intro i m hm
  unfold member? at hm
  rw [hmembers] at hm
  obtain ⟨e, he, hmem⟩ := hp hm
  obtain ⟨more, hmore⟩ := (extends_of_addType h).type he
  exact ⟨_, hmore, List.mem_append_left _ hmem⟩

/-- A member more, of whatever kind, is in the list of its declaring type. -/
lemma Listed.addMember (hp : p.Listed) {m : Member} {id : MemberId}
    (h : p.addMember? m = some (grown, id)) : grown.Listed := by
  intro i a ha
  rcases member?_of_addMember h ha with hold | ⟨rfl, rfl⟩
  · obtain ⟨e, he, hmem⟩ := hp hold
    obtain ⟨more, hmore⟩ := (extends_of_addMember h).type he
    exact ⟨_, hmore, List.mem_append_left _ hmem⟩
  · obtain ⟨d, hd, htypes, -⟩ := of_addMember?_eq_some h
    refine ⟨{ d with members := d.members ++ [⟨p.members.length⟩] }, ?_, by simp⟩
    unfold type? at hd ⊢
    rw [htypes, List.getElem?_set_self (List.getElem?_eq_some_iff.mp hd).1]

/-- In a program that grew from the empty one, every member is listed. -/
lemma Built.listed (h : p.Built) : p.Listed := by
  induction h with
  | empty =>
    intro id m hm
    simp [member?] at hm
  | addType _ hadd ih => exact ih.addType hadd
  | addMember _ _ hadd ih => exact ih.addMember hadd
  | addAccessor _ hadd ih =>
    obtain ⟨o, -, hmember⟩ := of_addAccessor?_eq_some hadd
    exact ih.addMember hmember

end Program

namespace Naming

variable {p : Program} {a b : MemberId} {m n : Member}

/-- Members of a list that have one position are the same. -/
lemma eq_of_idxOf?_eq {l : List MemberId} (ha : a ∈ l) (hb : b ∈ l)
    (h : (l.idxOf? a).getD 0 = (l.idxOf? b).getD 0) : a = b := by
  obtain ⟨i, hi⟩ := Option.isSome_iff_exists.mp (List.isSome_idxOf?.mpr ha)
  obtain ⟨j, hj⟩ := Option.isSome_iff_exists.mp (List.isSome_idxOf?.mpr hb)
  rw [hi, hj, Option.getD_some, Option.getD_some] at h
  subst h
  obtain ⟨_, hat, -⟩ := List.idxOf?_eq_some_iff.mp hi
  obtain ⟨_, hbt, -⟩ := List.idxOf?_eq_some_iff.mp hj
  exact hat.symm.trans hbt

/-- Overloads of one name and one kind have different numbers. -/
theorem overloadIndex_inj (hp : p.Listed) (ha : p.member? a = some m) (hb : p.member? b = some n)
    (htype : m.declaringType = n.declaringType) (hname : m.name = n.name) (hkind : m.kind = n.kind)
    (h : overloadIndex p a m = overloadIndex p b n) : a = b := by
  obtain ⟨d, hd, hmem⟩ := hp ha
  obtain ⟨e, he, hmem'⟩ := hp hb
  rw [htype] at hd
  obtain rfl := Option.some.inj (hd.symm.trans he)
  unfold overloadIndex Program.membersNamed? at h
  rw [htype, hname, hkind, hd] at h
  -- both members are in the list of overloads
  refine eq_of_idxOf?_eq ?_ ?_ h
  · simp [hmem, ha, hname, hkind]
  · simp [hmem', hb]

end Naming

/-! ## Functions of members -/

/-- The functions of its type through which a member is called; `none` is the function of the type
itself. -/
def MemberForm.functions : MemberForm → List (Option String)
  | .method name => [some name]
  | .property getter setter => [some getter, some setter]
  | .event adder remover => [some adder, some remover]
  | .constructor name => [name]
  | .field _ | .fieldProperty _ | .nativeIndexer => []

namespace Member

/-- The member is a method or an operator. -/
def IsFunction (m : Member) : Prop :=
  m.kind = .method ∨ m.kind = .operator

/-- What stands behind `get_` and `set_` in the functions of a property or indexer. -/
def stem? (m : Member) : Option String :=
  match m.kind with
  | .property => some m.name
  | .indexer => some "item"
  | _ => none

/-- The member is called through functions of its own: it is a method, operator, property, indexer
or constructor. -/
def IsCallable (m : Member) : Prop :=
  m.IsFunction ∨ (∃ stem, m.stem? = some stem) ∨ m.kind = .constructor

end Member

namespace Naming

open Member

variable {p : Program} {a b : MemberId} {m n : Member}

lemma functions_of_isFunction (hm : m.IsFunction) : (defaultForm p a m).functions =
    [some (numbered (lowerCamel m.name) (overloadIndex p a m))] := by
  rcases hm with hkind | hkind
  · simp only [defaultForm, hkind, MemberForm.functions]
  · simp only [defaultForm, hkind, MemberForm.functions]

lemma functions_of_stem? {stem : String} (hm : m.stem? = some stem) :
    (defaultForm p a m).functions = [some ("get_" ++ stem), some ("set_" ++ stem)] := by
  unfold stem? at hm
  cases hkind : m.kind with
  | property =>
    simp only [hkind, Option.some.injEq] at hm
    simp only [defaultForm, hkind, MemberForm.functions, hm]
  | indexer =>
    simp only [hkind, Option.some.injEq] at hm
    subst hm
    simp only [defaultForm, hkind, MemberForm.functions]
    rfl
  | field | method | operator | event | constructor => simp [hkind] at hm
  | accessor => simp [hkind] at hm

lemma functions_of_constructor (hm : m.kind = .constructor) :
    (defaultForm p a m).functions = [if overloadIndex p a m = 0 then none
      else some ("$ctor" ++ toString (overloadIndex p a m))] := by
  simp only [defaultForm, hm, MemberForm.functions]

/-- Two members have a function in common, if no name is overridden. -/
def SharesFunction (p : Program) (a b : MemberId) : Prop :=
  ∃ f g, ({} : Naming).form? p a = some f ∧ ({} : Naming).form? p b = some g ∧
    ∃ name, name ∈ f.functions ∧ name ∈ g.functions

/-- Members have their default forms. -/
lemma sharesFunction_iff_exists (ha : p.member? a = some m) (hb : p.member? b = some n) :
    SharesFunction p a b ↔
      ∃ name, name ∈ (defaultForm p a m).functions ∧ name ∈ (defaultForm p b n).functions := by
  simp [SharesFunction, form?, ha, hb]

lemma sharesFunction_comm : SharesFunction p a b ↔ SharesFunction p b a := by
  unfold SharesFunction
  constructor
  · rintro ⟨f, g, hf, hg, name, hfname, hgname⟩
    exact ⟨g, f, hg, hf, name, hgname, hfname⟩
  · rintro ⟨f, g, hf, hg, name, hfname, hgname⟩
    exact ⟨g, f, hg, hf, name, hgname, hfname⟩

/-- How the functions of two members come to share a name. -/
inductive Clash (p : Program) (a : MemberId) (m : Member) (b : MemberId) (n : Member) : Prop
  /-- Two properties of one name, two indexers, or an indexer and a property `item`. -/
  | accessors {stem : String} : m.stem? = some stem → n.stem? = some stem → Clash p a m b n
  /-- Names that differ at most in the case of their first letters, with the same number: these are
  different names, or a method and an operator. -/
  | functions : m.IsFunction → n.IsFunction → m.name ≠ n.name ∨ m.kind ≠ n.kind →
      lowerCamel m.name = lowerCamel n.name → overloadIndex p a m = overloadIndex p b n →
      Clash p a m b n
  /-- A first overload that is named like a later one of another name. -/
  | overload : m.IsFunction → n.IsFunction → overloadIndex p a m = 0 → overloadIndex p b n ≠ 0 →
      lowerCamel m.name = lowerCamel n.name ++ "$" ++ toString (overloadIndex p b n) →
      Clash p a m b n
  /-- A method or operator that is named like an accessor. -/
  | accessorName {stem : String} : m.IsFunction → n.stem? = some stem →
      numbered (lowerCamel m.name) (overloadIndex p a m) = "get_" ++ stem ∨
        numbered (lowerCamel m.name) (overloadIndex p a m) = "set_" ++ stem →
      Clash p a m b n
  /-- Constructors of different names with the same number. -/
  | constructors : m.kind = .constructor → n.kind = .constructor → m.name ≠ n.name →
      overloadIndex p a m = overloadIndex p b n → Clash p a m b n
  /-- A first overload that is named like a later constructor. -/
  | constructorName : m.IsFunction → n.kind = .constructor → overloadIndex p a m = 0 →
      overloadIndex p b n ≠ 0 → lowerCamel m.name = "$ctor" ++ toString (overloadIndex p b n) →
      Clash p a m b n

/-- The name of a later constructor is no number behind a name. -/
lemma numbered_eq_constructorName_iff {name : String} {i j : Nat} :
    numbered name i = "$ctor" ++ toString j ↔ i = 0 ∧ name = "$ctor" ++ toString j := by
  unfold numbered
  by_cases hi : i = 0
  · simp [hi]
  · simp only [hi, if_false, false_and, iff_false]
    intro h
    have hctor : '$' ∉ ("ctor" ++ toString j).toList := by
      simpa using dollar_notMem_toString j
    have hsplit : name ++ "$" ++ toString i = "" ++ "$" ++ ("ctor" ++ toString j) := by
      rw [h, String.empty_append, ← String.append_assoc]
      rfl
    -- then the number would be `ctor` with a number behind it
    obtain ⟨-, hnumber⟩ := eq_of_append_dollar (dollar_notMem_toString i) hctor hsplit
    have hdigit : 'c'.isDigit := isDigit_of_mem_toString (n := i) (by simp [hnumber])
    exact absurd hdigit (by decide)

/-- Getters and setters have different names. -/
lemma getter_ne_setter (u v : String) : "get_" ++ u ≠ "set_" ++ v := by
  intro h
  have hlists := congrArg String.toList h
  simp at hlists

/-! ## Members of two kinds -/

section Pairs

variable (ha : p.member? a = some m) (hb : p.member? b = some n)
include ha hb

/-- Methods and operators share a function if their numbered names agree. -/
lemma sharesFunction_functions_iff (hm : m.IsFunction) (hn : n.IsFunction) :
    SharesFunction p a b ↔ numbered (lowerCamel m.name) (overloadIndex p a m) =
      numbered (lowerCamel n.name) (overloadIndex p b n) := by
  simp [sharesFunction_iff_exists ha hb, functions_of_isFunction hm, functions_of_isFunction hn]

/-- Properties and indexers share their functions if they have the same stem. -/
lemma sharesFunction_accessors_iff {u v : String} (hm : m.stem? = some u)
    (hn : n.stem? = some v) : SharesFunction p a b ↔ u = v := by
  have hget : "get_" ++ u = "get_" ++ v ↔ u = v := String.append_right_inj _
  have hset : "set_" ++ u = "set_" ++ v ↔ u = v := String.append_right_inj _
  simp [sharesFunction_iff_exists ha hb, functions_of_stem? hm, functions_of_stem? hn, hget, hset,
    getter_ne_setter, (getter_ne_setter _ _).symm]

/-- Constructors share a function if they have the same number. -/
lemma sharesFunction_constructors_iff (hm : m.kind = .constructor) (hn : n.kind = .constructor) :
    SharesFunction p a b ↔ overloadIndex p a m = overloadIndex p b n := by
  rw [sharesFunction_iff_exists ha hb, functions_of_constructor hm, functions_of_constructor hn]
  simp only [List.mem_singleton, exists_eq_left]
  by_cases hi : overloadIndex p a m = 0
  · by_cases hj : overloadIndex p b n = 0
    · simp [hi, hj]
    · simp [hi, hj, Ne.symm hj]
  · by_cases hj : overloadIndex p b n = 0
    · simp [hi, hj]
    · simp only [hi, hj, if_false, Option.some.injEq, String.append_right_inj]
      exact toString_injective.eq_iff

/-- A method or operator shares a function with a property or indexer if it is named like one of
its accessors. -/
lemma sharesFunction_function_accessor_iff {stem : String} (hm : m.IsFunction)
    (hn : n.stem? = some stem) :
    SharesFunction p a b ↔
      numbered (lowerCamel m.name) (overloadIndex p a m) = "get_" ++ stem ∨
        numbered (lowerCamel m.name) (overloadIndex p a m) = "set_" ++ stem := by
  simp [sharesFunction_iff_exists ha hb, functions_of_isFunction hm, functions_of_stem? hn]

/-- A method or operator shares a function with a constructor if it is a first overload with the
name of a later constructor. -/
lemma sharesFunction_function_constructor_iff (hm : m.IsFunction) (hn : n.kind = .constructor) :
    SharesFunction p a b ↔ overloadIndex p a m = 0 ∧ overloadIndex p b n ≠ 0 ∧
      lowerCamel m.name = "$ctor" ++ toString (overloadIndex p b n) := by
  rw [sharesFunction_iff_exists ha hb, functions_of_isFunction hm, functions_of_constructor hn]
  simp only [List.mem_singleton, exists_eq_left]
  by_cases hj : overloadIndex p b n = 0
  · simp [hj]
  · simp only [hj, if_false, Option.some.injEq, numbered_eq_constructorName_iff, not_false_eq_true,
      true_and, ne_eq]

/-- Accessors and constructors never share a function. -/
lemma not_sharesFunction_accessor_constructor {stem : String} (hm : m.stem? = some stem)
    (hn : n.kind = .constructor) : ¬ SharesFunction p a b := by
  have hget : ∀ number : String, "$ctor" ++ number ≠ "get_" ++ stem := by
    intro number h
    have hlists := congrArg String.toList h
    simp at hlists
  have hset : ∀ number : String, "$ctor" ++ number ≠ "set_" ++ stem := by
    intro number h
    have hlists := congrArg String.toList h
    simp at hlists
  rw [sharesFunction_iff_exists ha hb, functions_of_stem? hm, functions_of_constructor hn]
  by_cases hj : overloadIndex p b n = 0
  · simp [hj]
  · simp [hj, hget, hset]

end Pairs

/-- Members that clash share a function. -/
lemma Clash.sharesFunction (h : Clash p a m b n) (ha : p.member? a = some m)
    (hb : p.member? b = some n) : SharesFunction p a b := by
  cases h with
  | accessors hm hn => exact (sharesFunction_accessors_iff ha hb hm hn).mpr rfl
  | functions hm hn _ hname hnumber =>
    rw [sharesFunction_functions_iff ha hb hm hn, hname, hnumber]
  | overload hm hn hfirst hlater hname =>
    rw [sharesFunction_functions_iff ha hb hm hn, numbered_eq_numbered_iff]
    exact .inr (.inl ⟨hfirst, hlater, hname⟩)
  | accessorName hm hn hname =>
    exact (sharesFunction_function_accessor_iff ha hb hm hn).mpr hname
  | constructors hm hn _ hnumber =>
    exact (sharesFunction_constructors_iff ha hb hm hn).mpr hnumber
  | constructorName hm hn hfirst hlater hname =>
    exact (sharesFunction_function_constructor_iff ha hb hm hn).mpr ⟨hfirst, hlater, hname⟩

/-- Two members of a type, whatever their names, overloads and explicit implementations, share a
function of the script exactly if they clash.  In particular overloads of one method, operator or
constructor never do, nor does a constructor with a property. -/
theorem sharesFunction_iff_clash (hp : p.Listed) (ha : p.member? a = some m)
    (hb : p.member? b = some n) (hne : a ≠ b) (htype : m.declaringType = n.declaringType)
    (hm : m.IsCallable) (hn : n.IsCallable) :
    SharesFunction p a b ↔ Clash p a m b n ∨ Clash p b n a m := by
  constructor
  · intro h
    have hback := sharesFunction_comm.mp h
    rcases hm with hm | ⟨u, hm⟩ | hm
    · rcases hn with hn | ⟨v, hn⟩ | hn
      · rw [sharesFunction_functions_iff ha hb hm hn, numbered_eq_numbered_iff] at h
        rcases h with ⟨hname, hnumber⟩ | ⟨hfirst, hlater, hname⟩ | ⟨hfirst, hlater, hname⟩
        · refine .inl (.functions hm hn ?_ hname hnumber)
          by_cases hsame : m.name = n.name
          · exact .inr fun hkind => hne (overloadIndex_inj hp ha hb htype hsame hkind hnumber)
          · exact .inl hsame
        · exact .inl (.overload hm hn hfirst hlater hname)
        · exact .inr (.overload hn hm hfirst hlater hname)
      · exact .inl (.accessorName hm hn ((sharesFunction_function_accessor_iff ha hb hm hn).mp h))
      · obtain ⟨hfirst, hlater, hname⟩ :=
          (sharesFunction_function_constructor_iff ha hb hm hn).mp h
        exact .inl (.constructorName hm hn hfirst hlater hname)
    · rcases hn with hn | ⟨v, hn⟩ | hn
      · exact .inr (.accessorName hn hm
          ((sharesFunction_function_accessor_iff hb ha hn hm).mp hback))
      · obtain rfl := (sharesFunction_accessors_iff ha hb hm hn).mp h
        exact .inl (.accessors hm hn)
      · exact absurd h (not_sharesFunction_accessor_constructor ha hb hm hn)
    · rcases hn with hn | ⟨v, hn⟩ | hn
      · obtain ⟨hfirst, hlater, hname⟩ :=
          (sharesFunction_function_constructor_iff hb ha hn hm).mp hback
        exact .inr (.constructorName hn hm hfirst hlater hname)
      · exact absurd hback (not_sharesFunction_accessor_constructor hb ha hn hm)
      · have hnumber := (sharesFunction_constructors_iff ha hb hm hn).mp h
        refine .inl (.constructors hm hn (fun hname => hne ?_) hnumber)
        exact overloadIndex_inj hp ha hb htype hname (hm.trans hn.symm) hnumber
  · rintro (h | h)
    · exact h.sharesFunction ha hb
    · exact sharesFunction_comm.mp (h.sharesFunction hb ha)

/-- A program of one type with the given members. -/
def declaring (type : String) (members : List Member) : Program where
  types := [{ name := type, members := (List.range members.length).map MemberId.mk }]
  members := members
  names := [(type, ⟨0⟩)]

/-- A method of the type, and another one that takes a parameter. -/
def sampleOpen (parameters : List Parameter) : Member where
  name := "Open"
  declaringType := ⟨0⟩
  kind := .method
  parameters := parameters
  returnType := .void

/-- A method that is named like the second overload of the others. -/
def sampleOpenOne : Member where
  name := "open$1"
  declaringType := ⟨0⟩
  kind := .method
  returnType := .void

/-- The second overload of a method, and the method that is named like it. -/
def sampleLid : Program :=
  declaring "Lid" [sampleOpen [], sampleOpen [{ name := "force", type := .int32 }], sampleOpenOne]

lemma built_sampleLid : sampleLid.Built :=
  (Program.grown_of_addAll?
    [.type { name := "Lid" }, .member (sampleOpen []),
      .member (sampleOpen [{ name := "force", type := .int32 }]), .member sampleOpenOne]
    (by decide) (show _ = some (_, _) from rfl)).built

theorem sharesFunction_iff_clash_sampleLid :
    sampleLid.Listed ∧ (⟨1⟩ : MemberId) ≠ ⟨2⟩ ∧
    ({} : Naming).form? sampleLid ⟨1⟩ = some (.method "open$1") ∧
    SharesFunction sampleLid ⟨1⟩ ⟨2⟩ ∧
    (SharesFunction sampleLid ⟨1⟩ ⟨2⟩ ↔
      Clash sampleLid ⟨1⟩ (sampleOpen [{ name := "force", type := .int32 }]) ⟨2⟩ sampleOpenOne ∨
      Clash sampleLid ⟨2⟩ sampleOpenOne ⟨1⟩ (sampleOpen [{ name := "force", type := .int32 }])) := by
  have hiff := sharesFunction_iff_clash (p := sampleLid) (a := ⟨1⟩) (b := ⟨2⟩)
    built_sampleLid.listed rfl rfl (by decide) rfl (.inl (.inl rfl)) (.inl (.inl rfl))
  have hclash : Clash sampleLid ⟨2⟩ sampleOpenOne ⟨1⟩
      (sampleOpen [{ name := "force", type := .int32 }]) :=
    .overload (.inl rfl) (.inl rfl) (by decide) (by decide) (by decide)
  exact ⟨built_sampleLid.listed, by decide, by decide, hiff.mpr (.inr hclash), hiff⟩

/-- An indexer with a parameter of the given type. -/
def sampleIndexer (type : TypeRef) : Member where
  name := "Item"
  declaringType := ⟨0⟩
  kind := .indexer
  parameters := [{ name := "p", type }]
  returnType := .string

/-- Two overloads of an indexer have the same accessors. -/
theorem overloaded_indexers_share_functions :
    (declaring "Grid" [sampleIndexer .int32, sampleIndexer .string]).Built ∧
    ({} : Naming).form? (declaring "Grid" [sampleIndexer .int32, sampleIndexer .string]) ⟨0⟩ =
      some (.property "get_item" "set_item") ∧
    ({} : Naming).form? (declaring "Grid" [sampleIndexer .int32, sampleIndexer .string]) ⟨1⟩ =
      some (.property "get_item" "set_item") := by
  have hempty : Program.addType? {} { name := "Grid" } = some (declaring "Grid" [], ⟨0⟩) := rfl
  have hfirst : (declaring "Grid" []).addMember? (sampleIndexer .int32) =
      some (declaring "Grid" [sampleIndexer .int32], ⟨0⟩) := rfl
  have hsecond : (declaring "Grid" [sampleIndexer .int32]).addMember? (sampleIndexer .string) =
      some (declaring "Grid" [sampleIndexer .int32, sampleIndexer .string], ⟨1⟩) := rfl
  have hplain : ∀ type owner role, (sampleIndexer type).kind ≠ .accessor owner role :=
    fun _ _ _ h => by cases h
  have hbuilt := ((Program.Built.empty.addType hempty).addMember (hplain _) hfirst).addMember
    (hplain _) hsecond
  exact ⟨hbuilt, by decide, by decide⟩

end Naming

end ScriptCompiler
