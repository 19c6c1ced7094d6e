import Mathlib.Data.List.Nodup
import ScriptCompiler.Proofs.Program.Growth

/-!
# The lists and the index of a program

A program keeps its definitions twice: types and members in the order in which they were added, and
beside them the members of each type and the types by their names.  The second part never says more
or less than the first (`Grown.indexed`): a type lists the members that are declared in it, in
order, and a name leads to the last type that has it.

Calls are made one after the other by `addAll?`.  If each call refers only to what was added before
it, no call is refused, and what was added keeps its name (`exists_addAll?`).
-/

namespace ScriptCompiler.Program

variable {p grown : Program} {d : TypeDefinition}

/-- The program came about by adding definitions one after the other, each type before its
members. -/
inductive Grown : Program → Prop
  | empty : Grown {}
  | addType {p grown : Program} {d : TypeDefinition} {id : TypeId} :
      Grown p → d.members = [] → p.addType? d = some (grown, id) → Grown grown
  | addMember {p grown : Program} {m : Member} {id : MemberId} :
      Grown p → (∀ owner role, m.kind ≠ .accessor owner role) →
        p.addMember? m = some (grown, id) → Grown grown
  | addAccessor {p grown : Program} {owner id : MemberId} {role : AccessorRole} :
      Grown p → p.addAccessor? owner role = some (grown, id) → Grown grown

/-- What grew type by type is built from its definitions. -/
lemma Grown.built (h : p.Grown) : p.Built := by
  induction h with
  | empty => exact .empty
  | addType _ _ hadd ih => exact .addType ih hadd
  | addMember _ hkind hadd ih => exact .addMember ih hkind hadd
  | addAccessor _ hadd ih => exact .addAccessor ih hadd

/-! ## Names stay -/

lemma Extends.length_types_le (h : p.Extends grown) : p.types.length ≤ grown.types.length := by
  refine Nat.le_of_not_lt fun hlt => ?_
  have hid : (p.type? ⟨grown.types.length⟩).isSome := isSome_type?_iff.mpr hlt
  exact Nat.lt_irrefl _ (isSome_type?_iff.mp (h.isSome_type? hid))

/-- A name stays as it is, also if longer chains of enclosing types are allowed. -/
lemma Extends.fullNameWithin_eq (h : p.Extends grown) {depth longer : Nat} {id : TypeId}
    {name : String} (hle : depth ≤ longer) (hname : p.fullNameWithin depth id = some name) :
    grown.fullNameWithin longer id = some name := by
  induction depth generalizing longer id name with
  | zero => cases hname
  | succ depth ih =>
    obtain ⟨longer, rfl⟩ := Nat.exists_eq_add_of_lt hle
    obtain ⟨d, hd, hname⟩ := Option.bind_eq_some_iff.mp hname
    obtain ⟨more, hmore⟩ := h.type hd
    cases houter : d.declaringType with
    | none => simpa [fullNameWithin, hmore, houter, TypeDefinition.metadataName] using hname
    | some outer =>
      rw [houter] at hname
      obtain ⟨enclosing, henclosing, hname⟩ := Option.bind_eq_some_iff.mp hname
      have hkept := ih (Nat.le_add_right depth longer) henclosing
      simpa [fullNameWithin, hmore, houter, hkept, TypeDefinition.metadataName] using hname

/-- Names of types stay when the program grows. -/
lemma Extends.fullName?_eq (h : p.Extends grown) (hp : p.Linked) {id : TypeId}
    (hid : (p.type? id).isSome) : grown.fullName? id = p.fullName? id := by
  obtain ⟨name, hname⟩ := Option.isSome_iff_exists.mp (hp.isSome_fullName? hid)
  exact (h.fullNameWithin_eq h.length_types_le hname).trans hname.symm

/-- Programs grow in turn. -/
lemma Extends.trans {q : Program} (h : p.Extends grown) (h' : grown.Extends q) :
    p.Extends q := by
  refine ⟨fun hd => ?_, fun hm => h'.member (h.member hm)⟩
  obtain ⟨more, hmore⟩ := h.type hd
  obtain ⟨last, hlast⟩ := h'.type hmore
  exact ⟨more ++ last, by simpa using hlast⟩

/-! ## The index -/

/-- The ids of the types, in the order in which they were added. -/
def typeIds (p : Program) : List TypeId :=
  (List.range p.types.length).map TypeId.mk

/-- The ids of the members, in the order in which they were added. -/
def memberIds (p : Program) : List MemberId :=
  (List.range p.members.length).map MemberId.mk

/-- The ids of the types that there are. -/
lemma mem_typeIds {id : TypeId} : id ∈ p.typeIds ↔ (p.type? id).isSome := by
  cases id
  simp [typeIds, type?]

lemma mem_memberIds {id : MemberId} : id ∈ p.memberIds ↔ (p.member? id).isSome := by
  cases id
  simp [memberIds, member?]

/-- A new type gets the next id. -/
lemma typeIds_eq_append (h : grown.types = p.types ++ [d]) :
    grown.typeIds = p.typeIds ++ [⟨p.types.length⟩] := by
  simp [typeIds, h, List.range_succ]

lemma memberIds_eq_append {m : Member} (h : grown.members = p.members ++ [m]) :
    grown.memberIds = p.memberIds ++ [⟨p.members.length⟩] := by
  simp [memberIds, h, List.range_succ]

/-- Whether the member is declared in the type. -/
def declares (p : Program) (t : TypeId) (id : MemberId) : Bool :=
  (p.member? id).any (·.declaringType == t)

/-- Whether the type has the name. -/
def isNamed (p : Program) (name : String) (t : TypeId) : Bool :=
  p.fullName? t == some name

/-- Types list their members in order, and a name leads to the last type that has it. -/
structure Indexed (p : Program) : Prop where
  listed : ∀ {t d}, p.type? t = some d → d.members = p.memberIds.filter (p.declares t)
  found : ∀ name, p.findType? name = (p.typeIds.filter (p.isNamed name)).getLast?

/-- A type of the program has the same names as before. -/
lemma Extends.isNamed_eq (h : p.Extends grown) (hp : p.Linked) (name : String) {t : TypeId}
    (ht : t ∈ p.typeIds) : grown.isNamed name t = p.isNamed name t := by
  unfold isNamed
  rw [h.fullName?_eq hp (mem_typeIds.mp ht)]

/-- A type has a name as soon as it stands behind the type that encloses it. -/
lemma Linked.exists_fullName?_concat (hp : p.Linked)
    (houter : ∀ outer, d.declaringType = some outer → (p.type? outer).isSome) :
    ∃ name, { p with types := p.types ++ [d] }.fullName? ⟨p.types.length⟩ = some name := by
  have hextends : p.Extends { p with types := p.types ++ [d] } := extends_of_types_eq rfl rfl
  cases hd : d.declaringType with
  | none => simp [fullName?, fullNameWithin, type?, hd]
  | some outer =>
    obtain ⟨enclosing, henclosing⟩ :=
      Option.isSome_iff_exists.mp (hp.isSome_fullName? (houter outer hd))
    have hkept := hextends.fullNameWithin_eq (Nat.le_refl _) henclosing
    simp [fullName?, fullNameWithin, type?, hd, hkept]

/-- Adding a type succeeds, if the type that encloses it is there. -/
lemma Linked.exists_addType? (hp : p.Linked)
    (houter : ∀ outer, d.declaringType = some outer → (p.type? outer).isSome) :
    ∃ grown, p.addType? d = some (grown, ⟨p.types.length⟩) := by
  obtain ⟨name, hname⟩ := hp.exists_fullName?_concat houter
  unfold addType?
  cases hd : d.declaringType with
  | none => simp [hname]
  | some outer =>
    obtain ⟨enclosing, henclosing⟩ := Option.isSome_iff_exists.mp (houter outer hd)
    simp [hname, henclosing]

/-- It is returned. -/
lemma Linked.id_of_addType? (hp : p.Linked) {id : TypeId} (h : p.addType? d = some (grown, id)) :
    id = ⟨p.types.length⟩ := by
  obtain ⟨-, -, -, houter⟩ := of_addType?_eq_some h
  obtain ⟨_, hadd⟩ := hp.exists_addType? houter
  exact (Prod.mk.inj (Option.some.inj (h.symm.trans hadd))).2

/-- The name of a type is read before the index has it, and stays the same. -/
lemma fullName?_of_addType? {id : TypeId} (h : p.addType? d = some (grown, id)) :
    ∃ name, grown.fullName? id = some name ∧ grown.names = (name, id) :: p.names := by
  obtain ⟨htypes, hmembers, ⟨name, hname, hnames⟩, -⟩ := of_addType?_eq_some h
  have hsame : Extends { p with types := p.types ++ [d] } grown := by
    refine ⟨fun {i e} he => ⟨[], ?_⟩, fun {i m} hm => ?_⟩
    · unfold type? at he ⊢
      rw [htypes, he, List.append_nil]
    · unfold member? at hm ⊢
      rw [hmembers, hm]
  exact ⟨name, hsame.fullNameWithin_eq hsame.length_types_le hname, hnames⟩

/-- The index is kept when a type is added. -/
lemma Indexed.addType (hp : p.Indexed) (hlinked : p.Linked) {id : TypeId} (hd : d.members = [])
    (h : p.addType? d = some (grown, id)) : grown.Indexed := by
  obtain ⟨htypes, hmembers, -⟩ := of_addType?_eq_some h
  obtain ⟨added, hadded, hnames⟩ := fullName?_of_addType? h
  obtain rfl := hlinked.id_of_addType? h
  have hmember := member?_of_addType h
  constructor
  · intro t e ht
    have hdeclares : grown.declares t = p.declares t := funext fun i => by
      rw [declares, hmember, declares]
    rw [memberIds, hmembers, ← memberIds, hdeclares]
    rcases type?_of_addType h ht with hold | ⟨hindex, rfl⟩
    · exact hp.listed hold
    · -- no member is declared in a type that was not there
      refine hd.trans (List.filter_eq_nil_iff.mpr fun i _ hi => ?_).symm
      obtain ⟨m, hm, hsame⟩ := (Option.any_eq_true _ _).mp hi
      have hlt := isSome_type?_iff.mp (hlinked.declared hm)
      rw [eq_of_beq hsame] at hlt
      omega
  · intro name
    rw [typeIds_eq_append htypes, List.filter_append, findType?, hnames, List.lookup_cons,
      List.filter_congr fun t ht => (extends_of_addType h).isNamed_eq hlinked name ht]
    by_cases heq : name = added
    · subst heq
      simp [isNamed, hadded]
    · have hne : (name == added) = false := beq_false_of_ne heq
      have hne' : grown.isNamed name ⟨p.types.length⟩ = false := by
        simp [isNamed, hadded, Ne.symm heq]
      rw [hne, List.filter_cons_of_neg (by simp [hne']), List.filter_nil, List.append_nil]
      exact hp.found name

/-- So it is when a member is added. -/
lemma Indexed.addMember (hp : p.Indexed) (hlinked : p.Linked) {m : Member} {id : MemberId}
    (h : p.addMember? m = some (grown, id)) : grown.Indexed := by
  have hextends := extends_of_addMember h
  obtain ⟨d, hd, htypes, hmembers, hnames⟩ := of_addMember?_eq_some h
  have hadded : grown.member? ⟨p.members.length⟩ = some m := by
    unfold member?
    rw [hmembers, List.getElem?_concat_length]
  constructor
  · intro t e ht
    have hkept : ∀ i ∈ p.memberIds, grown.declares t i = p.declares t i := by
      intro i hi
      obtain ⟨a, ha⟩ := Option.isSome_iff_exists.mp (mem_memberIds.mp hi)
      rw [declares, declares, ha, hextends.member ha]
    rw [memberIds_eq_append hmembers, List.filter_append, List.filter_congr hkept]
    rcases type?_of_addMember h ht with ⟨hne, hold⟩ | ⟨rfl, e', he', rfl⟩
    · have hnot : grown.declares t ⟨p.members.length⟩ = false := by
        simp [declares, hadded, Ne.symm hne]
      simp [hnot, hp.listed hold]
    · have hself : grown.declares m.declaringType ⟨p.members.length⟩ = true := by
        simp [declares, hadded]
      simp [hself, hp.listed he']
  · intro name
    have hids : grown.typeIds = p.typeIds := by
      rw [typeIds, htypes, List.length_set, typeIds]
    rw [findType?, hnames, hids,
      List.filter_congr fun t ht => hextends.isNamed_eq hlinked name ht]
    exact hp.found name

/-- The index stays right while a program grows. -/
theorem Grown.indexed (h : p.Grown) : p.Indexed := by
  induction h with
  | empty => exact ⟨fun h => by simp [type?] at h, fun _ => rfl⟩
  | addType hp hd hadd ih => exact ih.addType hp.built.linked hd hadd
  | addMember hp _ hadd ih => exact ih.addMember hp.built.linked hadd
  | addAccessor hp hadd ih =>
    obtain ⟨o, -, hmember⟩ := of_addAccessor?_eq_some hadd
    exact ih.addMember hp.built.linked hmember

/-- Every listed member is declared by its type. -/
theorem Indexed.own (hp : p.Indexed) {t : TypeId} {d : TypeDefinition} {id : MemberId}
    (hd : p.type? t = some d) (hid : id ∈ d.members) :
    ∃ m, p.member? id = some m ∧ m.declaringType = t := by
  rw [hp.listed hd] at hid
  obtain ⟨m, hm, hsame⟩ := (Option.any_eq_true _ _).mp (List.mem_filter.mp hid).2
  exact ⟨m, hm, eq_of_beq hsame⟩

lemma Indexed.fullName?_of_findType? (hp : p.Indexed) {name : String} {id : TypeId}
    (h : p.findType? name = some id) : p.fullName? id = some name := by
  rw [hp.found] at h
  exact eq_of_beq (List.mem_filter.mp (List.mem_of_getLast? h)).2

/-- The accessor that is found is the first one that was added for its owner and role. -/
lemma Indexed.accessor?_eq (hp : p.Indexed) (hlinked : p.Linked) {owner : MemberId}
    (howner : (p.member? owner).isSome) (role : AccessorRole) :
    p.accessor? owner role =
      some (p.memberIds.find? fun id => (p.member? id).any (·.kind == .accessor owner role)) := by
  obtain ⟨o, ho⟩ := Option.isSome_iff_exists.mp howner
  obtain ⟨d, hd⟩ := Option.isSome_iff_exists.mp (hlinked.declared ho)
  simp only [accessor?, ho, hd, Option.bind_eq_bind, Option.bind_some, Option.pure_def,
    hp.listed hd, List.find?_filter, Option.some.injEq]
  -- an accessor is declared where its owner is
  refine congrArg (p.memberIds.find? ·) (funext fun id => ?_)
  cases hm : p.member? id with
  | none => simp [declares, hm]
  | some m =>
    cases hkind : m.kind == .accessor owner role with
    | false => simp [hkind]
    | true =>
      obtain ⟨o', ho', hsame⟩ := hlinked.beside hm (eq_of_beq hkind)
      obtain rfl := Option.some.inj (ho.symm.trans ho')
      simp [declares, hm, hkind, hsame]

/-! ## Calls one after the other -/

/-- A call that adds a definition. -/
inductive Addition where
  | type (d : TypeDefinition)
  | member (m : Member)
  | accessor (owner : MemberId) (role : AccessorRole)

/-- Makes a call, and answers what it added. -/
def add? (p : Program) : Addition → Option (Program × Entity)
  | .type d => (p.addType? d).map (Prod.map id .type)
  | .member m => (p.addMember? m).map (Prod.map id .member)
  | .accessor owner role => (p.addAccessor? owner role).map (Prod.map id .member)

/-- Makes the calls one after the other. -/
def addAll? : Program → List Addition → Option (Program × List Entity)
  | p, [] => some (p, [])
  | p, a :: rest => do
    let (grown, e) ← p.add? a
    let (last, more) ← grown.addAll? rest
    return (last, e :: more)

/-- Whether each call refers to what was added before it, starting with so many types and members:
a type comes without members and inside a type that is there, a member that is no accessor in such
a type, and an accessor to a member that is there. -/
def admissible : Nat → Nat → List Addition → Bool
  | _, _, [] => true
  | types, members, .type d :: rest =>
    d.members.isEmpty && d.declaringType.all (·.index < types) &&
      admissible (types + 1) members rest
  | types, members, .member m :: rest =>
    MemberKind.allPlain.contains m.kind && m.declaringType.index < types &&
      admissible types (members + 1) rest
  | types, members, .accessor owner _ :: rest =>
    owner.index < members && admissible types (members + 1) rest

/-- The ids of types among what was added. -/
def typesOf (made : List Entity) : List TypeId :=
  made.filterMap fun
    | .type id => some id
    | .member _ => none

/-- The ids of members among what was added. -/
def membersOf (made : List Entity) : List MemberId :=
  made.filterMap fun
    | .type _ => none
    | .member id => some id

/-- Calls that added `made` to `p` have led to `q`. -/
structure Leads (p : Program) (made : List Entity) (q : Program) : Prop where
  grown : q.Grown
  extends_left : p.Extends q
  types : q.typeIds = p.typeIds ++ typesOf made
  members : q.memberIds = p.memberIds ++ membersOf made

lemma Grown.leads_self (hp : p.Grown) : p.Leads [] p := by
  refine ⟨hp, ⟨fun hd => ⟨[], ?_⟩, fun hm => hm⟩, ?_, ?_⟩
  · rw [hd, List.append_nil]
  · simp [typesOf]
  · simp [membersOf]

/-- Calls lead on in turn. -/
lemma Leads.trans {q : Program} {made more : List Entity} (h : p.Leads made grown)
    (h' : grown.Leads more q) : p.Leads (made ++ more) q := by
  refine ⟨h'.grown, h.extends_left.trans h'.extends_left, ?_, ?_⟩
  · rw [h'.types, h.types, List.append_assoc, typesOf, typesOf, typesOf, List.filterMap_append]
  · rw [h'.members, h.members, List.append_assoc, membersOf, membersOf, membersOf,
      List.filterMap_append]

/-- A member is added, if its type is there. -/
lemma exists_addMember? {m : Member} (hm : (p.type? m.declaringType).isSome) :
    ∃ q, p.addMember? m = some (q, ⟨p.members.length⟩) ∧ q.types.length = p.types.length ∧
      q.members.length = p.members.length + 1 ∧
        (q.Grown → p.Leads [.member ⟨p.members.length⟩] q) := by
  obtain ⟨d, hd⟩ := Option.isSome_iff_exists.mp hm
  have hadd : ∃ q, p.addMember? m = some (q, ⟨p.members.length⟩) := by simp [addMember?, hd]
  obtain ⟨q, hadd⟩ := hadd
  obtain ⟨_, -, htypes, hmembers, -⟩ := of_addMember?_eq_some hadd
  refine ⟨q, hadd, by simp [htypes], by simp [hmembers],
    fun hq => ⟨hq, extends_of_addMember hadd, ?_, ?_⟩⟩
  · simp [typeIds, htypes, typesOf]
  · exact memberIds_eq_append hmembers

/-- A call that refers to what is there succeeds. -/
lemma Grown.exists_add? (hp : p.Grown) {a : Addition} {rest : List Addition}
    (h : admissible p.types.length p.members.length (a :: rest) = true) :
    ∃ q e, p.add? a = some (q, e) ∧ p.Leads [e] q ∧
      admissible q.types.length q.members.length rest = true := by
  have hlinked := hp.built.linked
  cases a with
  | type d =>
    simp only [admissible, Bool.and_eq_true, List.isEmpty_iff, Option.all_eq_true,
      decide_eq_true_eq] at h
    obtain ⟨⟨hd, houter⟩, hrest⟩ := h
    obtain ⟨q, hadd⟩ := hlinked.exists_addType? fun outer h => isSome_type?_iff.mpr (houter outer h)
    obtain ⟨htypes, hmembers, -⟩ := of_addType?_eq_some hadd
    refine ⟨q, .type ⟨p.types.length⟩, by simp [add?, hadd], ⟨.addType hp hd hadd,
      extends_of_addType hadd, typeIds_eq_append htypes, ?_⟩, ?_⟩
    · simp [memberIds, hmembers, membersOf]
    · simpa [htypes, hmembers] using hrest
  | member m =>
    simp only [admissible, Bool.and_eq_true, decide_eq_true_eq] at h
    obtain ⟨⟨hkind, hdeclared⟩, hrest⟩ := h
    obtain ⟨q, hadd, htypes, hmembers, hleads⟩ := exists_addMember? (isSome_type?_iff.mpr hdeclared)
    have hplain : ∀ owner role, m.kind ≠ .accessor owner role := by
      intro owner role heq
      simp [heq, MemberKind.allPlain] at hkind
    refine ⟨q, _, by simp [add?, hadd], hleads (.addMember hp hplain hadd), ?_⟩
    rwa [htypes, hmembers]
  | accessor owner role =>
    simp only [admissible, Bool.and_eq_true, decide_eq_true_eq] at h
    obtain ⟨howner, hrest⟩ := h
    obtain ⟨o, ho⟩ : ∃ o, p.member? owner = some o := ⟨_, List.getElem?_eq_getElem howner⟩
    have hdeclared : (p.type? o.declaringType).isSome := hlinked.declared ho
    obtain ⟨q, hadd, htypes, hmembers, hleads⟩ :=
      exists_addMember? (m := o.accessorFor owner role) hdeclared
    have haccessor : p.addAccessor? owner role = some (q, ⟨p.members.length⟩) := by
      simp [addAccessor?, ho, hadd]
    refine ⟨q, _, by simp [add?, haccessor], hleads (.addAccessor hp haccessor), ?_⟩
    rwa [htypes, hmembers]

/-- Calls succeed one after the other, if each refers to what was added before it. -/
theorem Grown.exists_addAll? (hp : p.Grown) {additions more : List Addition}
    (h : admissible p.types.length p.members.length (additions ++ more) = true) :
    ∃ q made, p.addAll? additions = some (q, made) ∧ p.Leads made q ∧
      admissible q.types.length q.members.length more = true := by
  induction additions generalizing p with
  | nil => exact ⟨p, [], rfl, hp.leads_self, h⟩
  | cons a rest ih =>
    obtain ⟨grown, e, hadd, hleads, hrest⟩ := hp.exists_add? h
    obtain ⟨q, made, hmade, hleads', hmore⟩ := ih hleads.grown hrest
    exact ⟨q, e :: made, by simp [addAll?, hadd, hmade], hleads.trans hleads', hmore⟩

/-- After whatever calls, each of which refers to what was added before it, the lists of the
program agree.  Ids count the calls that added types and members.  A member is listed once, in its
declaring type and nowhere else, and members are listed in the order of the calls.  An accessor
comes after its owner, in the same type.  Types keep the names that they had after earlier calls.
A name leads to the last type with it, and a member with a role to the first accessor that was added
for them. -/
theorem addAll?_consistent (first more : List Addition)
    (h : admissible 0 0 (first ++ more) = true) :
    ∃ p q made added, addAll? {} first = some (p, made) ∧ p.addAll? more = some (q, added) ∧
      (typesOf (made ++ added) = q.typeIds ∧ membersOf (made ++ added) = q.memberIds) ∧
      (∀ id m, q.member? id = some m → ∃ d, q.type? m.declaringType = some d ∧
        d.members.count id = 1 ∧
        ∀ t e, q.type? t = some e → id ∈ e.members → t = m.declaringType) ∧
      (∀ t d, q.type? t = some d → d.members.Sublist q.memberIds) ∧
      (∀ id m owner role, q.member? id = some m → m.kind = .accessor owner role →
        owner.index < id.index ∧
          ∃ o, q.member? owner = some o ∧ o.declaringType = m.declaringType) ∧
      (∀ t, (p.type? t).isSome → ∃ name, p.fullName? t = some name ∧ q.fullName? t = some name) ∧
      (∀ name, q.findType? name =
        (q.typeIds.filter fun t => q.fullName? t == some name).getLast?) ∧
      ∀ owner role, (q.member? owner).isSome → q.accessor? owner role =
        some (q.memberIds.find? fun id => (q.member? id).any (·.kind == .accessor owner role)) := by
  obtain ⟨p, made, hfirst, hp, hmore⟩ := Grown.empty.exists_addAll? h
  rw [← List.append_nil more] at hmore
  obtain ⟨q, added, hadded, hq, -⟩ := hp.grown.exists_addAll? hmore
  have hall := hp.trans hq
  have hlinked := hq.grown.built.linked
  have hindexed := hq.grown.indexed
  refine ⟨p, q, made, added, hfirst, hadded, ⟨hall.types.symm, hall.members.symm⟩, ?_, ?_, ?_, ?_,
    hindexed.found, fun owner role howner => hindexed.accessor?_eq hlinked howner role⟩
  · intro id m hm
    obtain ⟨d, hd⟩ := Option.isSome_iff_exists.mp (hlinked.declared hm)
    have hmem : id ∈ q.memberIds := mem_memberIds.mpr (by rw [hm]; rfl)
    have hdeclares : q.declares m.declaringType id = true := by simp [declares, hm]
    have hnodup : q.memberIds.Nodup := List.nodup_range.map fun _ _ h => congrArg MemberId.index h
    refine ⟨d, hd, ?_, fun t e he hid => ?_⟩
    · rw [hindexed.listed hd, List.count_filter hdeclares]
      exact List.count_eq_one_of_mem hnodup hmem
    · obtain ⟨m', hm', hsame⟩ := hindexed.own he hid
      obtain rfl := Option.some.inj (hm.symm.trans hm')
      exact hsame.symm
  · intro t d hd
    rw [hindexed.listed hd]
    exact List.filter_sublist
  · exact fun id m owner role hm hkind => ⟨hlinked.owner_lt hm hkind, hlinked.beside hm hkind⟩
  · intro t ht
    obtain ⟨name, hname⟩ :=
      Option.isSome_iff_exists.mp (hp.grown.built.linked.isSome_fullName? ht)
    exact ⟨name, hname, (hq.extends_left.fullName?_eq hp.grown.built.linked ht).trans hname⟩

/-- Calls that succeed, each of which refers to what was added before it, make a program grow from
the empty one. -/
lemma grown_of_addAll? (additions : List Addition) {made : List Entity}
    (h : admissible 0 0 additions = true) (hadd : addAll? {} additions = some (p, made)) :
    p.Grown := by
  rw [← List.append_nil additions] at h
  obtain ⟨q, made', hq, hleads, -⟩ := Grown.empty.exists_addAll? h
  obtain ⟨rfl, -⟩ := Prod.mk.inj (Option.some.inj (hadd.symm.trans hq))
  exact hleads.grown

/-- A type with a property and its getter, and a type inside it. -/
def sampleBoxes : List Addition :=
  [.type { name := "Box" }, .member { name := "Size", kind := .property, declaringType := ⟨0⟩ },
    .accessor ⟨0⟩ .getter, .type { name := "Lid", declaringType := some ⟨0⟩ }]

/-- Another type of the same name, with a field, and another getter of the property. -/
def sampleAgain : List Addition :=
  [.type { name := "Box" }, .member { name := "size", declaringType := ⟨2⟩ },
    .accessor ⟨0⟩ .getter]

theorem addAll?_consistent_sampleAgain :
    admissible 0 0 (sampleBoxes ++ sampleAgain) = true ∧
    ∃ p q made added, addAll? {} sampleBoxes = some (p, made) ∧
      p.addAll? sampleAgain = some (q, added) ∧ q.memberIds = [⟨0⟩, ⟨1⟩, ⟨2⟩, ⟨3⟩] ∧
      p.fullName? ⟨1⟩ = some "Box+Lid" ∧ q.fullName? ⟨1⟩ = some "Box+Lid" ∧
      q.findType? "Box" = some ⟨2⟩ ∧ q.accessor? ⟨0⟩ .getter = some (some ⟨1⟩) := by
  have hadmissible : admissible 0 0 (sampleBoxes ++ sampleAgain) = true := by decide
  obtain ⟨p, q, made, added, hfirst, hmore, ⟨-, hids⟩, -, -, -, hnames, hfound, haccessor⟩ :=
    addAll?_consistent sampleBoxes sampleAgain hadmissible
  refine ⟨hadmissible, p, q, made, added, hfirst, hmore, ?_⟩
  obtain ⟨rfl, rfl⟩ := Prod.mk.inj (Option.some.inj (show some (_, _) = _ from hfirst))
  obtain ⟨rfl, rfl⟩ := Prod.mk.inj (Option.some.inj (show some (_, _) = _ from hmore))
  have hnamed := hnames ⟨1⟩ (by decide)
  obtain ⟨name, hname, hkept⟩ := hnamed
  have hlid : some name = some "Box+Lid" := hname.symm.trans (by decide)
  exact ⟨hids.symm, hname.trans hlid, hkept.trans hlid, (hfound "Box").trans (by decide),
    (haccessor ⟨0⟩ .getter rfl).trans (by decide)⟩

/-- A type that lists two members before there are any, another type, and a constructor in each of
them, the second one with a parameter. -/
def prefilledSample : List Addition :=
  [.type { name := "A", members := [⟨0⟩, ⟨1⟩] }, .type { name := "B" },
    .member { kind := .constructor, declaringType := ⟨0⟩ },
    .member { kind := .constructor, declaringType := ⟨1⟩,
              parameters := [⟨"x", .simple "System.Int32", .value⟩] }]

/-- A type that comes with a list of members keeps it, so that a member is listed twice, or by a type
that does not declare it.  And there is no answer for an accessor of a member that was not added. -/
theorem addAll?_prefilled_inconsistent :
    ∃ q made d m, addAll? {} prefilledSample = some (q, made) ∧ q.type? ⟨0⟩ = some d ∧
      q.member? ⟨1⟩ = some m ∧ d.members.count ⟨0⟩ = 2 ∧
      (⟨1⟩ ∈ d.members ∧ m.declaringType ≠ ⟨0⟩) ∧
      ∀ role, q.accessor? ⟨2⟩ role = none :=
  ⟨_, _, _, _, rfl, rfl, rfl, by decide, by decide, fun _ => rfl⟩

end ScriptCompiler.Program
