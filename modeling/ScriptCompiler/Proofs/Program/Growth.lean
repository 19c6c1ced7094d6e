import ScriptCompiler.Program.Naming

/-!
# Programs that grew from the empty one

A program is `Ordered` if every definition refers to earlier ones only: a nested type to the type
that encloses it, a member to its declaring type, and an accessor to its owner.  Then no chain of
references runs in a circle, and every type and member of the program has a full name, a script name
and a description.  Adding a type or a member keeps the order, also a member that was made an
accessor by hand, as long as its owner is there (`Ordered.addMember`).

A program is `Built` if it came about by adding types, members and accessors one after the other,
the accessors through their owners.  Then an accessor also has the declaring type of its owner
(`Built.linked`).
-/

namespace ScriptCompiler.Program

/-- The program came about by adding definitions one after the other; accessors are added through
their owners. -/
inductive Built : Program → Prop
  | empty : Built {}
  | addType {p grown : Program} {d : TypeDefinition} {id : TypeId} :
      Built p → p.addType? d = some (grown, id) → Built grown
  | addMember {p grown : Program} {m : Member} {id : MemberId} :
      Built p → (∀ owner role, m.kind ≠ .accessor owner role) →
        p.addMember? m = some (grown, id) → Built grown
  | addAccessor {p grown : Program} {owner id : MemberId} {role : AccessorRole} :
      Built p → p.addAccessor? owner role = some (grown, id) → Built grown

/-- Every definition refers to earlier definitions only. -/
structure Ordered (p : Program) : Prop where
  /-- A nested type comes after the type that encloses it. -/
  outer_lt : ∀ {id d outer}, p.type? id = some d → d.declaringType = some outer →
    outer.index < id.index
  /-- The declaring type of a member is in the program. -/
  declared : ∀ {id m}, p.member? id = some m → (p.type? m.declaringType).isSome
  /-- An accessor comes after its owner. -/
  owner_lt : ∀ {id m owner role}, p.member? id = some m → m.kind = .accessor owner role →
    owner.index < id.index

/-- Every definition refers to earlier definitions only, and accessors stand beside their owners. -/
structure Linked (p : Program) : Prop extends Ordered p where
  /-- The owner of an accessor has the same declaring type. -/
  beside : ∀ {id m owner role}, p.member? id = some m → m.kind = .accessor owner role →
    ∃ o, p.member? owner = some o ∧ o.declaringType = m.declaringType

/-! ## One more definition -/

variable {p grown : Program} {id : TypeId} {d : TypeDefinition} {m : Member}

/-- The types of the program are those below their number. -/
theorem isSome_type?_iff : (p.type? id).isSome ↔ id.index < p.types.length := by
  simp [type?]

/-- The members of the program are those below their number. -/
theorem isSome_member?_iff {id : MemberId} :
    (p.member? id).isSome ↔ id.index < p.members.length := by
  simp [member?]

/-- What adding a type changes. -/
theorem of_addType?_eq_some (h : p.addType? d = some (grown, id)) :
    grown.types = p.types ++ [d] ∧ grown.members = p.members ∧
      (∃ name, { p with types := p.types ++ [d] }.fullName? id = some name ∧
        grown.names = (name, id) :: p.names) ∧
      ∀ outer, d.declaringType = some outer → (p.type? outer).isSome := by
  unfold addType? at h
  cases houter : d.declaringType with
  | none =>
    simp only [houter, Option.bind_eq_bind, Option.bind_eq_some_iff, Option.pure_def,
      Option.some.injEq, Prod.mk.injEq] at h
    obtain ⟨name, hname, rfl, rfl⟩ := h
    exact ⟨rfl, rfl, ⟨name, hname, rfl⟩, fun outer hsome => by cases hsome⟩
  | some outer =>
    simp only [houter, Option.bind_eq_bind, Option.bind_eq_some_iff, Option.pure_def,
      Option.some.injEq, Prod.mk.injEq] at h
    obtain ⟨enclosing, henclosing, name, hname, rfl, rfl⟩ := h
    refine ⟨rfl, rfl, ⟨name, hname, rfl⟩, fun other hsome => ?_⟩
    obtain rfl : outer = other := Option.some.inj hsome
    rw [henclosing]
    rfl

/-- What adding a member changes. -/
theorem of_addMember?_eq_some {id : MemberId} (h : p.addMember? m = some (grown, id)) :
    ∃ d, p.type? m.declaringType = some d ∧
      grown.types =
        p.types.set m.declaringType.index { d with members := d.members ++ [⟨p.members.length⟩] } ∧
      grown.members = p.members ++ [m] ∧ grown.names = p.names := by
  unfold addMember? at h
  simp only [Option.bind_eq_bind, Option.bind_eq_some_iff, Option.pure_def, Option.some.injEq,
    Prod.mk.injEq] at h
  obtain ⟨d, hd, rfl, -⟩ := h
  exact ⟨d, hd, rfl, rfl, rfl⟩

/-- What adding an accessor changes: it adds a member. -/
theorem of_addAccessor?_eq_some {owner id : MemberId} {role : AccessorRole}
    (h : p.addAccessor? owner role = some (grown, id)) :
    ∃ o, p.member? owner = some o ∧ p.addMember? (o.accessorFor owner role) = some (grown, id) := by
  unfold addAccessor? at h
  simpa only [Option.bind_eq_bind, Option.bind_eq_some_iff] using h

/-- `q` has the definitions of `p`; its types may have more members. -/
structure Extends (p q : Program) : Prop where
  type : ∀ {id d}, p.type? id = some d →
    ∃ more, q.type? id = some { d with members := d.members ++ more }
  member : ∀ {id m}, p.member? id = some m → q.member? id = some m

theorem Extends.isSome_type? (h : p.Extends grown) (hid : (p.type? id).isSome) :
    (grown.type? id).isSome := by
  obtain ⟨d, hd⟩ := Option.isSome_iff_exists.mp hid
  obtain ⟨more, hmore⟩ := h.type hd
  rw [hmore]
  rfl

/-- A program with one more type extends the other one. -/
theorem extends_of_types_eq (htypes : grown.types = p.types ++ [d])
    (hmembers : grown.members = p.members) : p.Extends grown := by
  constructor
  · intro i e he
    refine ⟨[], ?_⟩
    unfold type? at he ⊢
    rw [htypes, List.getElem?_append_left (List.getElem?_eq_some_iff.mp he).1, he, List.append_nil]
  · intro i m hm
    unfold member? at hm ⊢
    rwa [hmembers]

theorem extends_of_addType (h : p.addType? d = some (grown, id)) : p.Extends grown := by
  obtain ⟨htypes, hmembers, -⟩ := of_addType?_eq_some h
  exact extends_of_types_eq htypes hmembers

theorem extends_of_addMember {id : MemberId} (h : p.addMember? m = some (grown, id)) :
    p.Extends grown := by
  obtain ⟨d, hd, htypes, hmembers, -⟩ := of_addMember?_eq_some h
  constructor
  · intro i e he
    by_cases hi : i = m.declaringType
    · subst hi
      obtain rfl := Option.some.inj (hd.symm.trans he)
      refine ⟨[⟨p.members.length⟩], ?_⟩
      unfold type? at hd ⊢
      rw [htypes, List.getElem?_set_self (List.getElem?_eq_some_iff.mp hd).1]
    · refine ⟨[], ?_⟩
      unfold type? at he ⊢
      rw [htypes, List.getElem?_set_ne fun heq => hi (congrArg TypeId.mk heq.symm), he,
        List.append_nil]
  · intro i a ha
    unfold member? at ha ⊢
    rw [hmembers, List.getElem?_append_left (List.getElem?_eq_some_iff.mp ha).1]
    exact ha

/-- The last of a list with one more item. -/
theorem getElem?_concat_cases {α : Type} {l : List α} {a b : α} {i : Nat}
    (h : (l ++ [a])[i]? = some b) : l[i]? = some b ∨ i = l.length ∧ b = a := by
  rcases Nat.lt_trichotomy i l.length with hlt | heq | hgt
  · left
    rwa [List.getElem?_append_left hlt] at h
  · right
    subst heq
    simp only [List.getElem?_concat_length, Option.some.injEq] at h
    exact ⟨rfl, h.symm⟩
  · rw [List.getElem?_eq_none (by simp; omega)] at h
    cases h

/-- A type is an old one or the one that was added. -/
theorem type?_of_addType {d e : TypeDefinition} {id i : TypeId}
    (h : p.addType? d = some (grown, id)) (he : grown.type? i = some e) :
    p.type? i = some e ∨ i.index = p.types.length ∧ e = d := by
  unfold type? at he
  rw [(of_addType?_eq_some h).1] at he
  exact getElem?_concat_cases he

/-- A type is another one as it was, or that of the member that was added. -/
theorem type?_of_addMember {id : MemberId} {i : TypeId} {e : TypeDefinition}
    (h : p.addMember? m = some (grown, id)) (he : grown.type? i = some e) :
    i ≠ m.declaringType ∧ p.type? i = some e ∨ i = m.declaringType ∧
      ∃ d, p.type? i = some d ∧ e = { d with members := d.members ++ [⟨p.members.length⟩] } := by
  obtain ⟨d, hd, htypes, -⟩ := of_addMember?_eq_some h
  by_cases hi : i = m.declaringType
  · subst hi
    unfold type? at hd he
    rw [htypes, List.getElem?_set_self (List.getElem?_eq_some_iff.mp hd).1] at he
    exact .inr ⟨rfl, d, hd, (Option.some.inj he).symm⟩
  · unfold type? at he
    rw [htypes, List.getElem?_set_ne fun heq => hi (congrArg TypeId.mk heq.symm)] at he
    exact .inl ⟨hi, he⟩

/-- A member is an old one or the one that was added. -/
theorem member?_of_addMember {m a : Member} {id i : MemberId}
    (h : p.addMember? m = some (grown, id)) (ha : grown.member? i = some a) :
    p.member? i = some a ∨ i = ⟨p.members.length⟩ ∧ a = m := by
  obtain ⟨d, -, -, hmembers, -⟩ := of_addMember?_eq_some h
  unfold member? at ha
  rw [hmembers] at ha
  rcases getElem?_concat_cases ha with hold | ⟨hindex, ha⟩
  · exact .inl hold
  · exact .inr ⟨congrArg MemberId.mk hindex, ha⟩

/-- Adding a type leaves the members as they are. -/
theorem member?_of_addType (h : p.addType? d = some (grown, id)) (i : MemberId) :
    grown.member? i = p.member? i := by
  obtain ⟨-, hmembers, -⟩ := of_addType?_eq_some h
  unfold member?
  rw [hmembers]

/-- Adding a type keeps the references in order. -/
theorem Ordered.addType (hp : p.Ordered) (h : p.addType? d = some (grown, id)) : grown.Ordered := by
  obtain ⟨-, -, -, houter⟩ := of_addType?_eq_some h
  have hmember := member?_of_addType h
  constructor
  · intro t e outer ht he
    rcases type?_of_addType h ht with hold | ⟨hindex, rfl⟩
    · exact hp.outer_lt hold he
    · have hlt := isSome_type?_iff.mp (houter outer he)
      omega
  · intro i m hm
    exact (extends_of_addType h).isSome_type? (hp.declared ((hmember i).symm.trans hm))
  · intro i m owner role hm hkind
    exact hp.owner_lt ((hmember i).symm.trans hm) hkind

/-- Adding a member keeps the references in order, if an accessor refers to a member of the
program. -/
theorem Ordered.addMember (hp : p.Ordered) {id : MemberId}
    (hm : ∀ owner role, m.kind = .accessor owner role → (p.member? owner).isSome)
    (h : p.addMember? m = some (grown, id)) : grown.Ordered := by
  obtain ⟨d, hd, -⟩ := of_addMember?_eq_some h
  have hextends := extends_of_addMember h
  constructor
  · intro t e outer ht he
    rcases type?_of_addMember h ht with ⟨-, hold⟩ | ⟨-, e', he', rfl⟩
    · exact hp.outer_lt hold he
    · exact hp.outer_lt he' he
  · intro i a ha
    refine hextends.isSome_type? ?_
    rcases member?_of_addMember h ha with hold | ⟨-, rfl⟩
    · exact hp.declared hold
    · rw [hd]
      rfl
  · intro i a owner role ha hkind
    rcases member?_of_addMember h ha with hold | ⟨rfl, rfl⟩
    · exact hp.owner_lt hold hkind
    · exact isSome_member?_iff.mp (hm owner role hkind)

/-- Adding a type leaves accessors beside their owners. -/
theorem Linked.addType (hp : p.Linked) (h : p.addType? d = some (grown, id)) :
    grown.Linked where
  toOrdered := hp.toOrdered.addType h
  beside := by
    intro i m owner role hm hkind
    rw [member?_of_addType h] at hm ⊢
    exact hp.beside hm hkind

/-- Adding a member leaves accessors beside their owners, if it is added beside its own. -/
theorem Linked.addMember (hp : p.Linked) {id : MemberId}
    (hm : ∀ owner role, m.kind = .accessor owner role →
      ∃ o, p.member? owner = some o ∧ o.declaringType = m.declaringType)
    (h : p.addMember? m = some (grown, id)) : grown.Linked where
  toOrdered := by
    refine hp.toOrdered.addMember (fun owner role hkind => ?_) h
    obtain ⟨o, ho, -⟩ := hm owner role hkind
    rw [ho]
    rfl
  beside := by
    intro i a owner role ha hkind
    have hold : ∃ o, p.member? owner = some o ∧ o.declaringType = a.declaringType := by
      rcases member?_of_addMember h ha with hold | ⟨rfl, rfl⟩
      · exact hp.beside hold hkind
      · exact hm owner role hkind
    obtain ⟨o, ho, hsame⟩ := hold
    exact ⟨o, (extends_of_addMember h).member ho, hsame⟩

/-- A program without definitions refers to nothing. -/
theorem ordered_empty : Ordered {} where
  outer_lt := fun h => by simp [type?] at h
  declared := fun h => by simp [member?] at h
  owner_lt := fun h => by simp [member?] at h

/-- In a program that grew from the empty one, every definition refers to earlier ones only. -/
theorem Built.linked (h : p.Built) : p.Linked := by
  induction h with
  | empty => exact { ordered_empty with beside := fun h => by simp [member?] at h }
  | addType _ hadd ih => exact ih.addType hadd
  | addMember _ hkind hadd ih =>
    exact ih.addMember (fun owner role h => absurd h (hkind owner role)) hadd
  | addAccessor _ hadd ih =>
    obtain ⟨o, ho, hmember⟩ := of_addAccessor?_eq_some hadd
    refine ih.addMember (fun owner role hkind => ?_) hmember
    obtain ⟨rfl, rfl⟩ : _ = owner ∧ _ = role := by simpa [Member.accessorFor] using hkind
    exact ⟨o, ho, rfl⟩

/-! ## Every definition has its names -/

/-- The enclosing type of a type of the program is in the program. -/
theorem Ordered.isSome_outer (hp : p.Ordered) {outer : TypeId} (hd : p.type? id = some d)
    (houter : d.declaringType = some outer) : (p.type? outer).isSome := by
  have hlt := hp.outer_lt hd houter
  have hid : id.index < p.types.length := (List.getElem?_eq_some_iff.mp hd).1
  rw [isSome_type?_iff]
  omega

/-- The owner of an accessor of the program is in the program. -/
theorem Ordered.isSome_owner (hp : p.Ordered) {id owner : MemberId} {role : AccessorRole}
    (hm : p.member? id = some m) (hkind : m.kind = .accessor owner role) :
    (p.member? owner).isSome := by
  have hlt := hp.owner_lt hm hkind
  have hid : id.index < p.members.length := (List.getElem?_eq_some_iff.mp hm).1
  rw [isSome_member?_iff]
  omega

/-- A type has a full name if the allowed chain of enclosing types is longer than its position. -/
theorem Ordered.isSome_fullNameWithin (hp : p.Ordered) {depth : Nat} (hid : (p.type? id).isSome)
    (hdepth : id.index < depth) : (p.fullNameWithin depth id).isSome := by
  induction depth generalizing id with
  | zero => omega
  | succ depth ih =>
    obtain ⟨d, hd⟩ := Option.isSome_iff_exists.mp hid
    cases houter : d.declaringType with
    | none => simp [fullNameWithin, hd, houter]
    | some outer =>
      have hlt := hp.outer_lt hd houter
      obtain ⟨name, hname⟩ := Option.isSome_iff_exists.mp
        (ih (hp.isSome_outer hd houter) (by omega))
      simp [fullNameWithin, hd, houter, hname]

/-- Every type of the program has a full name. -/
theorem Ordered.isSome_fullName? (hp : p.Ordered) (hid : (p.type? id).isSome) :
    (p.fullName? id).isSome := by
  exact hp.isSome_fullNameWithin hid (isSome_type?_iff.mp hid)

/-- Every member of the program has a description. -/
theorem Ordered.isSome_describe?_member (hp : p.Ordered) {id : MemberId}
    (hid : (p.member? id).isSome) : (p.describe? (.member id)).isSome := by
  obtain ⟨m, hm⟩ := Option.isSome_iff_exists.mp hid
  obtain ⟨name, hname⟩ := Option.isSome_iff_exists.mp (hp.isSome_fullName? (hp.declared hm))
  simp only [describe?, hm, hname, Option.bind_eq_bind, Option.bind_some]
  unfold describeMember?
  split
  · rename_i owner role hkind
    obtain ⟨o, ho⟩ := Option.isSome_iff_exists.mp (hp.isSome_owner hm hkind)
    simp [ho]
  · split <;> rfl

/-- A type has a script name if the allowed chain of enclosing types is longer than its
position. -/
theorem Ordered.isSome_typeNameWithin (hp : p.Ordered) (n : Naming) {depth : Nat}
    (hid : (p.type? id).isSome) (hdepth : id.index < depth) :
    (n.typeNameWithin p depth id).isSome := by
  induction depth generalizing id with
  | zero => omega
  | succ depth ih =>
    obtain ⟨d, hd⟩ := Option.isSome_iff_exists.mp hid
    unfold Naming.typeNameWithin
    split
    · rfl
    · cases houter : d.declaringType with
      | none => simp [hd, houter]
      | some outer =>
        have hlt := hp.outer_lt hd houter
        obtain ⟨name, hname⟩ := Option.isSome_iff_exists.mp
          (ih (hp.isSome_outer hd houter) (by omega))
        simp [hd, houter, hname]

/-- Every type of the program has a script name. -/
theorem Ordered.isSome_typeName? (hp : p.Ordered) (n : Naming) (hid : (p.type? id).isSome) :
    (n.typeName? p id).isSome := by
  have hlt := isSome_type?_iff.mp hid
  exact hp.isSome_typeNameWithin n hid (by omega)

/-- Every member of the program is realised in some form. -/
theorem isSome_form? (n : Naming) {id : MemberId} (hid : (p.member? id).isSome) :
    (n.form? p id).isSome := by
  unfold Naming.form?
  split
  · rfl
  · simpa using hid

end ScriptCompiler.Program
