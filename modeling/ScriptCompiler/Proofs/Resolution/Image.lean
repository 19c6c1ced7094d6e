import ScriptCompiler.Proofs.Resolution.Interface
import ScriptCompiler.Proofs.Resolution.Signatures
import ScriptCompiler.Resolution.Resolver

/-!
# Metadata as the image of a program

A module is the image of a program if each type of the program has its entry, found by its full
name, and the tables of that entry hold, in any order, the members of the type and the accessors of
its properties and events, and nothing else.  `IsMethod`, `IsProperty` and `IsEvent` say what an
entry carries of its member; `TypeImage` says what the tables hold; `Image` puts the types together.

The tests by which members are matched are exact on images: an entry passes the test for the member
whose image it is, and if it passes the test for some member, then its own member has the same key.
-/

namespace ScriptCompiler

open Metadata

/-- The signatures of the parameters of a member. -/
def Member.signatures (m : Member) : List Signature :=
  m.parameters.map Parameter.signature

namespace Resolution

variable {x : ExplicitImplementation}

/-! ## What an entry carries of its member -/

/-- `StoredAs m name` tells that the entry of `m` may have the name `name`. -/
inductive StoredAs (m : Member) : String → Prop
  | simple (h : m.explicitImplementation = none) (hkind : m.kind ≠ .constructor)
      (hname : IsSimple m.name) : StoredAs m m.name
  | instanceConstructor (h : m.explicitImplementation = none) (hkind : m.kind = .constructor)
      (hstatic : m.isStatic = false) : StoredAs m ".ctor"
  | staticConstructor (h : m.explicitImplementation = none) (hkind : m.kind = .constructor)
      (hstatic : m.isStatic = true) : StoredAs m ".cctor"
  | explicit {x : ExplicitImplementation} {full spelling : String}
      (h : m.explicitImplementation = some x) (hmember : IsSimple x.memberName)
      (hfull : x.interface.fullName? = some full) (hne : spelling ≠ "")
      (hspelling : SpelledAs full.toList spelling.toList) :
      StoredAs m (spelling ++ "." ++ x.memberName)

/-- The implemented interface members that are recorded for an explicit implementation. -/
structure Records (x : ExplicitImplementation) (implemented : List MemberSignature) : Prop where
  ne_nil : implemented ≠ []
  eq : ∀ r ∈ implemented, r.declaringType = .ofType x.interface ∧ r.name = x.memberName

/-- The method entry is the image of the member. -/
structure IsMethod (m : Member) (e : MethodEntry) : Prop where
  name : StoredAs m e.name
  parameters : e.parameters = m.signatures
  returnType : e.returnType = .ofType m.returnType
  arity : e.genericParameterCount.toNat = m.typeParameterCount
  isStatic : e.isStatic = m.isStatic
  implemented : ∀ {x}, m.explicitImplementation = some x → Records x e.implemented

/-- The accessor of a member as metadata has it: that of an explicit implementation implements the
accessor of the interface member. -/
def storedAccessor (m : Member) (owner : MemberId) (role : AccessorRole) : Member :=
  { m.accessorFor owner role with
    explicitImplementation := m.explicitImplementation.map fun x =>
      { x with memberName := role.lead ++ x.memberName } }

lemma storedAccessor_explicit {m : Member} {owner : MemberId} {role : AccessorRole}
    (hx : m.explicitImplementation = some x) :
    (storedAccessor m owner role).explicitImplementation =
      some { x with memberName := role.lead ++ x.memberName } := by
  simp [storedAccessor, hx]

/-- The accessors that a property has, by role. -/
def propertyAccessors (q : PropertyEntry) : List (AccessorRole × UInt32) :=
  (q.getter.map (.getter, ·)).toList ++ (q.setter.map (.setter, ·)).toList

/-- The accessors that an event has, by role. -/
def eventAccessors (e : EventEntry) : List (AccessorRole × UInt32) :=
  (e.adder.map (.adder, ·)).toList ++ (e.remover.map (.remover, ·)).toList

lemma mem_propertyAccessors {q : PropertyEntry} {role : AccessorRole} {k : UInt32} :
    (role, k) ∈ propertyAccessors q ↔
      role = .getter ∧ q.getter = some k ∨ role = .setter ∧ q.setter = some k := by
  cases hg : q.getter <;> cases hs : q.setter <;> simp [propertyAccessors, hg, hs, eq_comm]

lemma mem_eventAccessors {e : EventEntry} {role : AccessorRole} {k : UInt32} :
    (role, k) ∈ eventAccessors e ↔
      role = .adder ∧ e.adder = some k ∨ role = .remover ∧ e.remover = some k := by
  cases ha : e.adder <;> cases hr : e.remover <;> simp [eventAccessors, ha, hr, eq_comm]

/-- The accessors of a member with the given id are images of its stored accessors, and there is
one if the member is an explicit implementation. -/
structure HasAccessors (t : TypeEntry) (id : MemberId) (m : Member)
    (accessors : List (AccessorRole × UInt32)) : Prop where
  method : ∀ {role k}, (role, k) ∈ accessors →
    ∃ e, t.methods[k.toNat]? = some e ∧ IsMethod (storedAccessor m id role) e
  ne_nil : m.explicitImplementation.isSome → accessors ≠ []

/-- The property entry is the image of the member with the given id. -/
structure IsProperty (t : TypeEntry) (id : MemberId) (m : Member) (q : PropertyEntry) : Prop where
  name : StoredAs m q.name
  type : q.type = .ofType m.returnType
  parameters : q.parameters = m.signatures
  accessors : HasAccessors t id m (propertyAccessors q)
  /-- Exactly the indexers have parameters. -/
  indexer : m.kind = .indexer ↔ m.parameters ≠ []

/-- The event entry is the image of the member with the given id. -/
structure IsEvent (t : TypeEntry) (id : MemberId) (m : Member) (e : EventEntry) : Prop where
  name : StoredAs m e.name
  type : e.type = .ofType m.returnType
  accessors : HasAccessors t id m (eventAccessors e)

/-! ## Keys -/

/-- The name by which entries of a table are told apart.  How an interface is spelled does not
count. -/
def keyName (m : Member) : String :=
  match m.explicitImplementation with
  | some x => x.memberName
  | none => if m.kind = .constructor then if m.isStatic then ".cctor" else ".ctor" else m.name

/-- The interface that a member explicitly implements. -/
def keyInterface (m : Member) : Option TypeRef :=
  m.explicitImplementation.map (·.interface)

/-- Two members that a method table cannot tell apart.  Only conversions may differ in nothing but
their return types. -/
structure SameMethod (a b : Member) : Prop where
  name : keyName a = keyName b
  interface : keyInterface a = keyInterface b
  arity : a.typeParameterCount = b.typeParameterCount
  isStatic : a.isStatic = b.isStatic
  parameters : a.signatures = b.signatures
  returnType : a.isConversion → b.isConversion → a.returnType = b.returnType

/-- Two members with the same name, interface and parameters. -/
structure SameNamed (a b : Member) : Prop where
  name : keyName a = keyName b
  interface : keyInterface a = keyInterface b
  parameters : a.signatures = b.signatures

/-- An indexer that implements no interface member explicitly. -/
def IsPlainIndexer (m : Member) : Prop :=
  m.kind = .indexer ∧ m.explicitImplementation = none

/-- Two members that a property table cannot tell apart: plain indexers with the same parameters,
whatever their names, or other members with the same name, interface and parameters. -/
def SameProperty (a b : Member) : Prop :=
  IsPlainIndexer a ∧ IsPlainIndexer b ∧ a.signatures = b.signatures ∨ SameNamed a b

/-! ## The tests are exact -/

section Names

variable {m : Member} {stored : String}

lemma splitExplicitName_ctor : splitExplicitName ".ctor" = none := by decide

lemma splitExplicitName_cctor : splitExplicitName ".cctor" = none := by decide

/-- Only names of explicit implementations have an interface part. -/
lemma StoredAs.split_eq_none (h : StoredAs m stored) (hx : m.explicitImplementation = none) :
    splitExplicitName stored = none := by
  cases h with
  | simple _ _ hname => exact splitExplicitName_of_isSimple hname
  | instanceConstructor => exact splitExplicitName_ctor
  | staticConstructor => exact splitExplicitName_cctor
  | explicit h => rw [hx] at h; contradiction

/-- The name of an explicit implementation is a spelling of its interface and the member's name. -/
lemma StoredAs.split_eq_some (h : StoredAs m stored) (hx : m.explicitImplementation = some x) :
    ∃ spelling, splitExplicitName stored = some (spelling, x.memberName) ∧
      interfaceMatches spelling x.interface = true := by
  cases h with
  | simple h | instanceConstructor h | staticConstructor h => rw [hx] at h; contradiction
  | @explicit y full spelling h hmember hfull hne hspelling =>
    obtain rfl : y = x := Option.some.inj (h.symm.trans hx)
    refine ⟨spelling, splitExplicitName_append hne hspelling.balanced hmember, ?_⟩
    simp [interfaceMatches, hfull, hspelling.normalizeInterface_eq]

/-- A name without interface part is the key name. -/
lemma StoredAs.eq_keyName (h : StoredAs m stored) (hx : m.explicitImplementation = none) :
    stored = keyName m := by
  cases h with
  | simple _ hkind => simp [keyName, hx, hkind]
  | instanceConstructor _ hkind hstatic | staticConstructor _ hkind hstatic =>
    simp [keyName, hx, hkind, hstatic]
  | explicit h => rw [hx] at h; contradiction

lemma keyName_eq_storedName (hx : m.explicitImplementation = none) :
    keyName m = storedName m := by
  simp [keyName, storedName, hx]

/-- An explicit implementation is stored under its own name. -/
lemma StoredAs.nameMatches_of_explicit (h : StoredAs m stored)
    (hx : m.explicitImplementation = some x) : nameMatches stored m = true := by
  obtain ⟨spelling, hsplit, hinterface⟩ := h.split_eq_some hx
  simp [nameMatches, hx, hsplit, hinterface]

/-- The name of an explicit implementation only fits the names of explicit implementations of a
member of the same name. -/
lemma StoredAs.of_nameMatches_explicit {a : Member} (h : StoredAs m stored)
    (hx : a.explicitImplementation = some x) (hmatch : nameMatches stored a = true) :
    ∃ y, m.explicitImplementation = some y ∧ y.memberName = x.memberName := by
  cases hm : m.explicitImplementation with
  | none => simp [nameMatches, hx, h.split_eq_none hm] at hmatch
  | some y =>
    obtain ⟨spelling, hsplit, _⟩ := h.split_eq_some hm
    have hname : y.memberName = x.memberName := by
      have : (y.memberName == x.memberName) = true := by
        rw [nameMatches, hx] at hmatch
        simp only [hsplit, Option.any_some, Bool.and_eq_true] at hmatch
        exact hmatch.1
      simpa using this
    exact ⟨y, rfl, hname⟩

/-- An entry with the plain name of a member is not that of an explicit implementation. -/
lemma StoredAs.explicit_eq_none (h : StoredAs m stored)
    (hsplit : splitExplicitName stored = none) : m.explicitImplementation = none := by
  cases hm : m.explicitImplementation with
  | none => rfl
  | some x =>
    obtain ⟨spelling, hsome, _⟩ := h.split_eq_some hm
    rw [hsplit] at hsome
    contradiction

end Names

section Confirmation

variable {x y : ExplicitImplementation} {m : Member} {implemented : List MemberSignature}

/-- Records confirm an explicit implementation of the interface that they name. -/
lemma Records.confirms (h : Records y implemented) (hx : m.explicitImplementation = some x)
    (hinterface : y.interface = x.interface) {compareName : Bool}
    (hname : compareName = true → y.memberName = x.memberName) :
    implementedConfirms implemented m compareName = true := by
  obtain ⟨r, rest, rfl⟩ := List.exists_cons_of_ne_nil h.ne_nil
  obtain ⟨htype, hrname⟩ := h.eq r (by simp)
  rw [hinterface] at htype
  cases compareName with
  | false => simp [implementedConfirms, hx, (Signature.matches_iff _ _).mpr htype]
  | true => simp [implementedConfirms, hx, (Signature.matches_iff _ _).mpr htype, hrname, hname rfl]

/-- Records only confirm the interface that they name. -/
lemma Records.interface_eq (h : Records y implemented) (hx : m.explicitImplementation = some x)
    {compareName : Bool} (hconfirm : implementedConfirms implemented m compareName = true) :
    y.interface = x.interface := by
  have hne : implemented.isEmpty = false := by simpa using h.ne_nil
  rw [implementedConfirms, hx] at hconfirm
  simp only [hne, Bool.false_or, List.any_eq_true, Bool.and_eq_true] at hconfirm
  obtain ⟨r, hr, htype, _⟩ := hconfirm
  refine Signature.ofType_injective ?_
  rw [← (h.eq r hr).1]
  exact (Signature.matches_iff _ _).mp htype

end Confirmation

section Methods

variable {a m : Member} {e : MethodEntry}

/-- The image of a method passes its test. -/
lemma IsMethod.methodMatches_self (h : IsMethod m e) : methodMatches m e = true := by
  have hname : (if m.explicitImplementation.isSome then nameMatches e.name m
      else e.name == storedName m) = true := by
    cases hx : m.explicitImplementation with
    | none => simp [h.name.eq_keyName hx, keyName_eq_storedName hx]
    | some x => simpa using h.name.nameMatches_of_explicit hx
  have hconfirm : implementedConfirms e.implemented m true = true := by
    cases hx : m.explicitImplementation with
    | none => simp [implementedConfirms, hx]
    | some x => exact (h.implemented hx).confirms hx rfl fun _ => rfl
  have hparameters : parametersMatch e.parameters m.parameters = true :=
    (parametersMatch_iff _ _).mpr h.parameters
  have hreturn : e.returnType.matches m.returnType = true :=
    (Signature.matches_iff _ _).mpr h.returnType
  simp [methodMatches, hname, hconfirm, hparameters, hreturn, h.arity, h.isStatic]

/-- An entry that passes the test of a method is the image of a method with the same key. -/
lemma IsMethod.sameMethod (h : IsMethod m e) {stored : String} (ha : StoredAs a stored)
    (hmatch : methodMatches a e = true) : SameMethod a m := by
  simp only [methodMatches, Bool.and_eq_true, beq_iff_eq] at hmatch
  obtain ⟨⟨⟨⟨⟨hname, harity⟩, hstatic⟩, hparameters⟩, hreturn⟩, hconfirm⟩ := hmatch
  have hsignatures : a.signatures = m.signatures := by
    rw [← h.parameters]
    exact ((parametersMatch_iff _ _).mp hparameters).symm
  have hreturnType : a.isConversion → m.isConversion → a.returnType = m.returnType := by
    intro ha _
    have hmatches : e.returnType.matches a.returnType = true := by simpa [ha] using hreturn
    refine Signature.ofType_injective ?_
    rw [← h.returnType]
    exact ((Signature.matches_iff _ _).mp hmatches).symm
  have hkey : keyName a = keyName m ∧ keyInterface a = keyInterface m := by
    cases hx : a.explicitImplementation with
    | none =>
      have hstoredName : e.name = keyName a := by
        simpa [hx, keyName_eq_storedName hx] using hname
      -- the name has no interface part, so the entry is not that of an explicit implementation
      have hm : m.explicitImplementation = none :=
        h.name.explicit_eq_none (by rw [hstoredName, ← ha.eq_keyName hx, ha.split_eq_none hx])
      exact ⟨by rw [← hstoredName, h.name.eq_keyName hm], by simp [keyInterface, hx, hm]⟩
    | some x =>
      obtain ⟨y, hy, hmember⟩ := h.name.of_nameMatches_explicit hx (by simpa [hx] using hname)
      have hinterface := (h.implemented hy).interface_eq hx hconfirm
      exact ⟨by simp [keyName, hx, hy, hmember], by simp [keyInterface, hx, hy, hinterface]⟩
  exact ⟨hkey.1, hkey.2, by rw [← harity, h.arity], by rw [← hstatic, h.isStatic], hsignatures,
    hreturnType⟩

end Methods

section Accessors

variable {t : TypeEntry} {id : MemberId} {a m : Member}
  {accessors : List (AccessorRole × UInt32)}

/-- The accessors of an image confirm it. -/
lemma HasAccessors.confirm (h : HasAccessors t id m accessors) :
    accessorsConfirm t (accessors.map (·.2)) m = true := by
  cases hx : m.explicitImplementation with
  | none => simp [accessorsConfirm, hx]
  | some x =>
    obtain ⟨⟨role, k⟩, rest, rfl⟩ := List.exists_cons_of_ne_nil (h.ne_nil (by simp [hx]))
    obtain ⟨e, he, hmethod⟩ := h.method (List.mem_cons_self ..)
    have hconfirm : implementedConfirms e.implemented m false = true :=
      (hmethod.implemented (storedAccessor_explicit hx)).confirms hx rfl (by simp)
    simp [accessorsConfirm, he, hconfirm]

/-- The accessors of an image of an explicit implementation only confirm its interface. -/
lemma HasAccessors.interface_eq (h : HasAccessors t id m accessors)
    {x y : ExplicitImplementation} (hy : m.explicitImplementation = some y)
    (hx : a.explicitImplementation = some x)
    (hconfirm : accessorsConfirm t (accessors.map (·.2)) a = true) :
    y.interface = x.interface := by
  have hmem : ∀ {e : MethodEntry}, e ∈ (accessors.map (·.2)).filterMap (fun i =>
      t.methods[i.toNat]?) → ∃ role, IsMethod (storedAccessor m id role) e := by
    intro e he
    simp only [List.mem_filterMap, List.mem_map] at he
    obtain ⟨k, ⟨⟨role, k'⟩, hk, rfl⟩, he⟩ := he
    obtain ⟨e', he', hmethod⟩ := h.method hk
    obtain rfl : e' = e := Option.some.inj (he'.symm.trans he)
    exact ⟨role, hmethod⟩
  have hany : ∃ e ∈ (accessors.map (·.2)).filterMap (fun i => t.methods[i.toNat]?),
      implementedConfirms e.implemented a false = true := by
    obtain ⟨⟨role, k⟩, rest, rfl⟩ := List.exists_cons_of_ne_nil (h.ne_nil (by simp [hy]))
    obtain ⟨e, he, _⟩ := h.method (List.mem_cons_self ..)
    have hne : ((((role, k) :: rest).map (·.2)).filterMap fun i => t.methods[i.toNat]?).isEmpty =
        false := by
      simp [he]
    rw [accessorsConfirm, hx] at hconfirm
    simpa only [Option.isNone_some, Bool.false_or, hne, List.any_eq_true] using hconfirm
  obtain ⟨e, he, hconfirms⟩ := hany
  obtain ⟨role, hmethod⟩ := hmem he
  exact (hmethod.implemented (storedAccessor_explicit hy)).interface_eq hx hconfirms

end Accessors

section Properties

variable {t : TypeEntry} {id : MemberId} {a m : Member}

lemma map_propertyAccessors (q : PropertyEntry) :
    (propertyAccessors q).map (·.2) = q.getter.toList ++ q.setter.toList := by
  cases hg : q.getter <;> cases hs : q.setter <;> simp [propertyAccessors, hg, hs]

lemma map_eventAccessors (e : EventEntry) :
    (eventAccessors e).map (·.2) = e.adder.toList ++ e.remover.toList := by
  cases ha : e.adder <;> cases hr : e.remover <;> simp [eventAccessors, ha, hr]

/-- A member that is not a constructor may be stored under its own name. -/
lemma StoredAs.nameMatches_self {stored : String} (h : StoredAs m stored)
    (hkind : m.kind ≠ .constructor) : nameMatches stored m = true := by
  cases hx : m.explicitImplementation with
  | none => simp [nameMatches, hx, h.eq_keyName hx, keyName, hkind]
  | some x => exact h.nameMatches_of_explicit hx

/-- An entry that has a name of a member and accessors that confirm it is the image of a member
with the same name and interface. -/
lemma HasAccessors.sameKey {accessors : List (AccessorRole × UInt32)} {stored own : String}
    (h : HasAccessors t id m accessors) (hm : StoredAs m stored) (ha : StoredAs a own)
    (hkind : a.kind ≠ .constructor) (hname : nameMatches stored a = true)
    (hconfirm : accessorsConfirm t (accessors.map (·.2)) a = true) :
    keyName a = keyName m ∧ keyInterface a = keyInterface m := by
  cases hx : a.explicitImplementation with
  | none =>
    have hstored : stored = own := by
      rw [ha.eq_keyName hx]
      simpa [nameMatches, hx, keyName, hkind] using hname
    subst hstored
    have hm' : m.explicitImplementation = none := hm.explicit_eq_none (ha.split_eq_none hx)
    exact ⟨by rw [← ha.eq_keyName hx, hm.eq_keyName hm'], by simp [keyInterface, hx, hm']⟩
  | some x =>
    obtain ⟨y, hy, hmember⟩ := hm.of_nameMatches_explicit hx hname
    have hinterface := h.interface_eq hy hx hconfirm
    exact ⟨by simp [keyName, hx, hy, hmember], by simp [keyInterface, hx, hy, hinterface]⟩

/-- Whether the test for properties looks for a plain indexer. -/
lemma isPlainIndexer_iff :
    (m.kind == .indexer && m.explicitImplementation.isNone) = true ↔ IsPlainIndexer m := by
  simp [IsPlainIndexer]

/-- The image of a property passes its test. -/
lemma IsProperty.propertyMatches_self {q : PropertyEntry} (h : IsProperty t id m q)
    (hkind : m.kind ≠ .constructor) : propertyMatches t m q = true := by
  have hparameters : parametersMatch q.parameters m.parameters = true :=
    (parametersMatch_iff _ _).mpr h.parameters
  have hconfirm := h.accessors.confirm
  rw [map_propertyAccessors] at hconfirm
  rw [propertyMatches, hparameters, hconfirm, Bool.and_true, Bool.and_true]
  by_cases hplain : IsPlainIndexer m
  · have hne : q.parameters.isEmpty = false := by
      have := h.indexer.mp hplain.1
      simpa [h.parameters, Member.signatures] using this
    rw [if_pos (isPlainIndexer_iff.mpr hplain), hne, h.name.split_eq_none hplain.2]
    rfl
  · rw [if_neg (mt isPlainIndexer_iff.mp hplain)]
    exact h.name.nameMatches_self hkind

/-- An entry that passes the test of a property is the image of a member with the same key. -/
lemma IsProperty.sameProperty {q own : PropertyEntry} {i : MemberId} (h : IsProperty t id m q)
    (ha : IsProperty t i a own) (hkind : a.kind ≠ .constructor)
    (hmatch : propertyMatches t a q = true) : SameProperty a m := by
  rw [propertyMatches, Bool.and_eq_true, Bool.and_eq_true] at hmatch
  obtain ⟨⟨hname, hparameters⟩, hconfirm⟩ := hmatch
  have hsignatures : a.signatures = m.signatures := by
    rw [← h.parameters]
    exact ((parametersMatch_iff _ _).mp hparameters).symm
  by_cases hplain : IsPlainIndexer a
  · rw [if_pos (isPlainIndexer_iff.mpr hplain), Bool.and_eq_true] at hname
    -- the entry has parameters and no interface part, so it is that of a plain indexer
    have hparameters' : m.parameters ≠ [] := by
      have := ha.indexer.mp hplain.1
      intro hnil
      rw [Member.signatures, Member.signatures, hnil] at hsignatures
      simp_all
    have hsplit : splitExplicitName q.name = none := by simpa using hname.2
    exact .inl ⟨hplain, ⟨h.indexer.mpr hparameters', h.name.explicit_eq_none hsplit⟩, hsignatures⟩
  · rw [if_neg (mt isPlainIndexer_iff.mp hplain)] at hname
    rw [← map_propertyAccessors] at hconfirm
    obtain ⟨hkey, hinterface⟩ := h.accessors.sameKey h.name ha.name hkind hname hconfirm
    exact .inr ⟨hkey, hinterface, hsignatures⟩

/-- The image of an event passes its test. -/
lemma IsEvent.eventMatches_self {e : EventEntry} (h : IsEvent t id m e)
    (hkind : m.kind ≠ .constructor) : eventMatches t m e = true := by
  have hconfirm := h.accessors.confirm
  rw [map_eventAccessors] at hconfirm
  rw [eventMatches, h.name.nameMatches_self hkind, hconfirm]
  rfl

/-- An entry that passes the test of an event is the image of an event with the same key. -/
lemma IsEvent.sameKey {e own : EventEntry} {i : MemberId} (h : IsEvent t id m e)
    (ha : IsEvent t i a own) (hkind : a.kind ≠ .constructor)
    (hmatch : eventMatches t a e = true) :
    keyName a = keyName m ∧ keyInterface a = keyInterface m := by
  rw [eventMatches, Bool.and_eq_true, ← map_eventAccessors] at hmatch
  exact h.accessors.sameKey h.name ha.name hkind hmatch.1 hmatch.2

end Properties

/-! ## Images -/

/-- The program declares the member with the given id in the given type. -/
def Declares (p : Program) (type : TypeId) (id : MemberId) (m : Member) : Prop :=
  p.member? id = some m ∧ m.declaringType = type

/-- Members whose entries are methods, other than accessors. -/
def IsMethodKind (kind : MemberKind) : Prop :=
  kind = .method ∨ kind = .operator ∨ kind = .constructor

/-- Members whose entries are properties. -/
def IsPropertyKind (kind : MemberKind) : Prop :=
  kind = .property ∨ kind = .indexer

/-- `MethodAt p entry type t j m` tells that the method at position `j` of the entry `t` of a type
stands for `m`: a declared method, or an accessor of a declared property or event. -/
inductive MethodAt (p : Program) (entry : MemberId → Nat) (type : TypeId) (t : TypeEntry) :
    Nat → Member → Prop
  | declared {id : MemberId} {m : Member} (h : Declares p type id m) (hkind : IsMethodKind m.kind) :
    MethodAt p entry type t (entry id) m
  | ofProperty {id : MemberId} {m : Member} {q : PropertyEntry} {role : AccessorRole} {k : UInt32}
      (h : Declares p type id m) (hkind : IsPropertyKind m.kind)
      (hq : t.properties[entry id]? = some q) (hk : (role, k) ∈ propertyAccessors q) :
    MethodAt p entry type t k.toNat (storedAccessor m id role)
  | ofEvent {id : MemberId} {m : Member} {e : EventEntry} {role : AccessorRole} {k : UInt32}
      (h : Declares p type id m) (hkind : m.kind = .event)
      (he : t.events[entry id]? = some e) (hk : (role, k) ∈ eventAccessors e) :
    MethodAt p entry type t k.toNat (storedAccessor m id role)

/-- `Wired entry t owner m role k` tells that the method at position `k` plays the given role for
the member `m` with the id `owner`. -/
inductive Wired (entry : MemberId → Nat) (t : TypeEntry) (owner : MemberId) (m : Member)
    (role : AccessorRole) (k : UInt32) : Prop
  | property {q : PropertyEntry} (hkind : IsPropertyKind m.kind)
      (hq : t.properties[entry owner]? = some q) (hk : (role, k) ∈ propertyAccessors q)
  | event {e : EventEntry} (hkind : m.kind = .event) (he : t.events[entry owner]? = some e)
      (hk : (role, k) ∈ eventAccessors e)

/-- The tables of a type entry hold the members that the program declares in the type, each at the
position that `entry` gives, the accessors of its properties and events, and nothing else. -/
structure TypeImage (p : Program) (entry : MemberId → Nat) (type : TypeId) (t : TypeEntry) :
    Prop where
  field : ∀ {id m}, Declares p type id m → m.kind = .field →
    ∃ f, t.fields[entry id]? = some f ∧ f.name = m.name
  method : ∀ {id m}, Declares p type id m → IsMethodKind m.kind →
    ∃ e, t.methods[entry id]? = some e ∧ IsMethod m e
  property : ∀ {id m}, Declares p type id m → IsPropertyKind m.kind →
    ∃ q, t.properties[entry id]? = some q ∧ IsProperty t id m q
  event : ∀ {id m}, Declares p type id m → m.kind = .event →
    ∃ e, t.events[entry id]? = some e ∧ IsEvent t id m e
  accessor : ∀ {id m owner role}, Declares p type id m → m.kind = .accessor owner role →
    ∃ o k, Declares p type owner o ∧ Wired entry t owner o role k ∧ entry id = k.toNat
  fields_from : ∀ {j f}, t.fields[j]? = some f →
    ∃ id m, Declares p type id m ∧ m.kind = .field ∧ entry id = j
  methods_from : ∀ {j e}, t.methods[j]? = some e → ∃ m, MethodAt p entry type t j m
  properties_from : ∀ {j q}, t.properties[j]? = some q →
    ∃ id m, Declares p type id m ∧ IsPropertyKind m.kind ∧ entry id = j
  events_from : ∀ {j e}, t.events[j]? = some e →
    ∃ id m, Declares p type id m ∧ m.kind = .event ∧ entry id = j

/-- No two entries of a table have the same key, where `Same` compares the keys of properties. -/
structure DistinctKeys (p : Program) (entry : MemberId → Nat) (Same : Member → Member → Prop)
    (type : TypeId) (t : TypeEntry) : Prop where
  fields : ∀ {i j a b}, Declares p type i a → a.kind = .field → Declares p type j b →
    b.kind = .field → a.name = b.name → entry i = entry j
  methods : ∀ {i j a b}, MethodAt p entry type t i a → MethodAt p entry type t j b →
    SameMethod a b → i = j
  properties : ∀ {i j a b}, Declares p type i a → IsPropertyKind a.kind → Declares p type j b →
    IsPropertyKind b.kind → Same a b → entry i = entry j
  events : ∀ {i j a b}, Declares p type i a → a.kind = .event → Declares p type j b →
    b.kind = .event → keyName a = keyName b → keyInterface a = keyInterface b → entry i = entry j

/-- The module is the image of the program. -/
structure Image (p : Program) (m : Module) where
  /-- Position of a type. -/
  type : TypeId → Nat
  /-- Position of a member in its table. -/
  entry : MemberId → Nat
  declared : ∀ {id a}, p.member? id = some a → (p.type? a.declaringType).isSome
  named : ∀ {id}, (p.type? id).isSome →
    ∃ name, p.fullName? id = some name ∧ m.fullName? (type id) = some name
  names_unique : ∀ {i j name}, m.fullName? i = some name → m.fullName? j = some name → i = j
  tables : ∀ {id}, (p.type? id).isSome →
    ∃ t, m.types[type id]? = some t ∧ TypeImage p entry id t

namespace Image

variable {p : Program} {m : Module}

/-- No two entries of a table of the module have the same key. -/
def Distinct (image : Image p m) (Same : Member → Member → Prop) : Prop :=
  ∀ {id t}, (p.type? id).isSome → m.types[image.type id]? = some t →
    DistinctKeys p image.entry Same id t

/-- The handle of the entry that belongs to an entity of the program. -/
def handle (image : Image p m) : Entity → Handle
  | .type id => .type (image.type id)
  | .member id =>
    match p.member? id with
    | none => default
    | some a =>
      match a.kind with
      | .field => .field (image.type a.declaringType) (image.entry id)
      | .property | .indexer => .property (image.type a.declaringType) (image.entry id)
      | .event => .event (image.type a.declaringType) (image.entry id)
      | .method | .constructor | .operator | .accessor .. =>
        .method (image.type a.declaringType) (image.entry id)

end Image

end Resolution

end ScriptCompiler
