import ScriptCompiler.Proofs.Program.Names
import ScriptCompiler.Proofs.Session.Denotation

/-!
# Attributes and the constructors behind them

The constructor of an attribute is looked for from the metadata to the program: a type by its name,
and in it the first constructor with the signatures that the attribute gives.  Resolution goes the
other way, from a constructor to the only entry that fits it.  Parameters fit exactly the
signatures that they have, so an entry that is found for the constructor of an attribute has the
signatures of the attribute again (`findConstructor_perform_resolve`).

Names lead from one side to the other, by an index that stays right while the program grows.
-/

namespace ScriptCompiler

open Attribute (Record)
open Metadata (Handle MethodEntry Module)
open Resolution

/-! ## From an attribute to a constructor -/

/-- Objects of the attribute's type are made by the member, with arguments as the attribute has
them. -/
structure Constructs (p : Program) (r : Record) (m : Member) : Prop where
  kind : m.kind = .constructor
  isStatic : m.isStatic = false
  type : p.findType? r.typeName = some m.declaringType
  signatures : m.signatures = r.constructor.parameters

variable {p : Program} {r : Record}

/-- What is found is a constructor of the type with the right signatures. -/
lemma constructs_of_findConstructor (hp : p.Indexed) {c : MemberId}
    (h : findConstructor p r = .ok c) : ∃ m, p.member? c = some m ∧ Constructs p r m := by
  simp only [findConstructor] at h
  split at h
  · rename_i id hfound
    obtain rfl := Except.ok.inj h
    obtain ⟨t, ht, hfound⟩ := Option.bind_eq_some_iff.mp hfound
    obtain ⟨d, hd, hfind⟩ := Option.bind_eq_some_iff.mp hfound
    obtain ⟨m, hm, rfl⟩ := hp.own hd (List.mem_of_find?_eq_some hfind)
    have hfits := List.find?_some hfind
    rw [hm, Option.any_some, Bool.and_eq_true, Bool.and_eq_true, beq_iff_eq, Bool.not_eq_true',
      parametersMatch_iff] at hfits
    obtain ⟨⟨hkind, hstatic⟩, hsignatures⟩ := hfits
    exact ⟨m, hm, hkind, hstatic, ht, hsignatures.symm⟩
  · cases h

/-- Nothing is missed. -/
lemma exists_findConstructor (hp : p.Listed) {id : MemberId} {m : Member}
    (hm : p.member? id = some m) (h : Constructs p r m) : ∃ c, findConstructor p r = .ok c := by
  obtain ⟨d, hd, hmem⟩ := hp hm
  have hfound : (d.members.find? fun id => (p.member? id).any fun m =>
      m.kind == .constructor && !m.isStatic
        && parametersMatch r.constructor.parameters m.parameters).isSome := by
    refine List.find?_isSome.mpr ⟨id, hmem, ?_⟩
    have hsignatures := (parametersMatch_iff _ _).mpr h.signatures.symm
    simp [hm, h.kind, h.isStatic, hsignatures]
  obtain ⟨c, hc⟩ := Option.isSome_iff_exists.mp hfound
  refine ⟨c, ?_⟩
  simp only [findConstructor, h.type, hd, hc, Option.bind_eq_bind, Option.bind_some]

/-! ## From a constructor to its entry -/

namespace Resolution

variable {s : Setting}

/-- The metadata has the type at the given position, by its name. -/
def NamedAt (s : Setting) (id : TypeId) (i : Nat) : Prop :=
  ∃ name, s.program.fullName? id = some name ∧ s.catalog.findType? name = some i

/-- The types of the cache are where the metadata has them by their names. -/
def TypesNamed (s : Setting) (cache : HandleCache) : Prop :=
  ∀ e h, cache.lookup e = some h → ∀ id, e = .type id → NamedAt s id h.owner

lemma keeps_resolveType_named (id : TypeId) :
    Keeps (TypesNamed s) (resolveType s id) (NamedAt s id) := by
  have hfind : Keeps (TypesNamed s) (cached (.type id) (findType s id)) fun h =>
      ∀ other, Entity.type id = .type other → NamedAt s other h.owner := by
    refine Keeps.cached ((Keeps.known _).bind fun name hname => ?_)
    cases hfind : s.catalog.findType? name with
    | none => exact .throw _
    | some i =>
      refine .pure fun other heq => ?_
      cases heq
      exact ⟨name, hname, hfind⟩
  exact hfind.bind fun h hh => .pure (hh id rfl)

/-- A constructor is resolved, if nothing was found before, to the only method that fits it in the
type with the name of its type. -/
lemma of_fresh_constructor {id : MemberId} {m : Member} (hm : s.program.member? id = some m)
    (hkind : m.kind = .constructor) {h : Handle} (hfresh : fresh s (.member id) = .ok h) :
    ∃ t entry i, h = .method t i ∧ NamedAt s m.declaringType t ∧
      s.catalog.type? t = some entry ∧ Only (methodMatches m) entry.methods i := by
  have hdeclared : fresh s (.member id) = outcome (resolveDeclared s id m) [] := by
    obtain ⟨depth, hdepth⟩ := Nat.exists_eq_add_of_lt (List.getElem?_eq_some_iff.mp hm).1
    rw [fresh, resolve, hdepth, resolveMemberWithin_succ hm, outcome_cached_nil, findMember, hkind]
  have hkeeps : Keeps (TypesNamed s) (resolveDeclared s id m) fun h => ∃ t entry i,
      h = .method t i ∧ NamedAt s m.declaringType t ∧ s.catalog.type? t = some entry ∧
        Only (methodMatches m) entry.methods i := by
    refine (keeps_resolveType_named _).bind fun t ht => ?_
    refine (keeps_typeEntry _ _).bind fun entry hentry => ?_
    refine (keeps_single _ _ _).bind fun i hi => .pure ?_
    rw [candidates, hkind] at hi
    exact ⟨t, entry, i, by rw [hkind]; rfl, ht, hentry, only_of_positions hi⟩
  obtain ⟨after, -, ⟨found, hrun, hfound⟩ | ⟨e, hrun⟩⟩ :=
    hkeeps [] fun e h hlookup => by cases hlookup
  · rw [hdeclared, outcome_of_eq_answer hrun] at hfresh
    obtain rfl := Except.ok.inj hfresh
    exact hfound
  · rw [hdeclared, outcome_of_eq_answer hrun] at hfresh
    cases hfresh

/-- A method that fits a constructor is one, with the signatures of its parameters. -/
lemma of_methodMatches_constructor {m : Member} {method : MethodEntry}
    (hkind : m.kind = .constructor) (hstatic : m.isStatic = false)
    (hplain : m.explicitImplementation = none) (h : methodMatches m method = true) :
    method.name = ".ctor" ∧ method.isStatic = false ∧ method.parameters = m.signatures := by
  simp only [methodMatches, hplain, storedName, hkind, hstatic, Bool.and_eq_true, beq_iff_eq,
    parametersMatch_iff, Option.isSome_none, Bool.false_eq_true, if_false, if_true] at h
  obtain ⟨⟨⟨⟨⟨hname, -⟩, hsame⟩, hparameters⟩, -⟩, -⟩ := h
  exact ⟨hname, hsame, hparameters⟩

end Resolution

namespace Session

/-- After whatever calls, an entity has the handle that it has without them. -/
lemma fresh_of_perform_resolve {s : Session} (hp : s.program.Linked) (calls : List Call)
    {e : Entity} {x : Except ResolveError Handle}
    (h : (s.perform (.resolve e) (s.performAll calls {}).2).1 = .handle x) :
    fresh s.setting e = x := by
  obtain ⟨between, hcalls, hbetween⟩ := performAll_eq hp calls (consistent_empty (s := s.setting))
  obtain ⟨handles, -, hrun, -⟩ := hbetween.ofResolve hp e
  simp only [hcalls, perform, hrun, settle_answer, Answer.handle.injEq] at h
  exact h

/-- The constructor of an attribute, where there is one, is an instance constructor of the type
that has the name of the attribute's type.  After whatever calls, a method to which it is resolved
is an instance constructor in the last type of the metadata with that name, and takes exactly the
parameters that the attribute gives. -/
theorem findConstructor_perform_resolve (s : Session) {metadata : Module}
    (hs : s.catalog = .ofModule metadata) (hp : s.program.Grown)
    (hplain : ∀ id m, s.program.member? id = some m → m.kind = .constructor →
      m.explicitImplementation = none) (r : Record) :
    ((∃ c, findConstructor s.program r = .ok c) ↔
      ∃ id m, s.program.member? id = some m ∧ Constructs s.program r m) ∧
    ∀ c, findConstructor s.program r = .ok c →
      (∃ m, s.program.member? c = some m ∧ Constructs s.program r m ∧
        s.program.fullName? m.declaringType = some r.typeName) ∧
      ∀ calls t i, (s.perform (.resolve (.member c)) (s.performAll calls {}).2).1 =
          .handle (.ok (.method t i)) →
        (metadata.fullName? t = some r.typeName ∧
          ∀ j, metadata.fullName? j = some r.typeName → j ≤ t) ∧
        ∃ entry method, metadata.types[t]? = some entry ∧ entry.methods[i]? = some method ∧
          method.name = ".ctor" ∧ method.isStatic = false ∧
          method.parameters = r.constructor.parameters := by
  have hindexed := hp.indexed
  refine ⟨⟨?_, ?_⟩, fun c hc => ?_⟩
  · rintro ⟨c, hc⟩
    exact ⟨c, constructs_of_findConstructor hindexed hc⟩
  · rintro ⟨id, m, hm, hconstructs⟩
    exact exists_findConstructor hp.built.listed hm hconstructs
  · obtain ⟨m, hm, hconstructs⟩ := constructs_of_findConstructor hindexed hc
    have hname := hindexed.fullName?_of_findType? hconstructs.type
    refine ⟨⟨m, hm, hconstructs, hname⟩, fun calls t i hresolve => ?_⟩
    have hfresh := fresh_of_perform_resolve hp.built.linked calls hresolve
    obtain ⟨t', entry, i', heq, ⟨name, hname', hfind⟩, hentry, method, hmethod, hmatches, -⟩ :=
      of_fresh_constructor hm hconstructs.kind hfresh
    cases heq
    obtain rfl : name = r.typeName := Option.some.inj (hname'.symm.trans hname)
    obtain ⟨hctor, hinstance, hparameters⟩ := of_methodMatches_constructor hconstructs.kind
      hconstructs.isStatic (hplain c m hm hconstructs.kind) hmatches
    rw [setting, hs] at hfind hentry
    exact ⟨Metadata.findType?_ofModule_eq_some hfind, entry, method, hentry, hmethod, hctor,
      hinstance, hparameters.trans hconstructs.signatures⟩

/-- A generic type inside another one, with a static constructor and two constructors that take
the same type, one of them by reference. -/
def sampleTags : Session where
  program :=
    { types :=
        [{ path := "Lib", name := "Outer" },
          { name := "Tag", typeParameterCount := 1, declaringType := some ⟨0⟩,
            members := [⟨0⟩, ⟨1⟩, ⟨2⟩] }]
      members := [constructor true [], constructor false [⟨"x", tagType, .value⟩],
        constructor false [⟨"x", tagType, .out⟩]]
      names := [("Lib.Outer+Tag`1", ⟨1⟩), ("Lib.Outer", ⟨0⟩)] }
  catalog := .ofModule tagMetadata
where
  /-- The type of objects for the first type parameter. -/
  tagType : TypeRef := .named "Lib.Outer+Tag`1" [.parameter .type 0]
  constructor (isStatic : Bool) (parameters : List Parameter) : Member :=
    { kind := .constructor, declaringType := ⟨1⟩, isStatic, parameters }
  tagMetadata : Module :=
    { types :=
        [{ name := "Tag`1", enclosing := some 1,
           methods := [{ name := ".ctor", parameters := [.byRef (.ofType tagType)] },
             { name := ".cctor", flags := 1 },
             { name := ".ctor", parameters := [.ofType tagType] }] },
          { path := "Lib", name := "Outer" }] }

/-- The sample grew from the empty program. -/
lemma grown_sampleTags : sampleTags.program.Grown :=
  Program.grown_of_addAll?
    [.type { path := "Lib", name := "Outer" },
      .type (.nestedIn { name := "Tag", typeParameterCount := 1 } ⟨0⟩),
      .member (sampleTags.constructor true []),
      .member (sampleTags.constructor false [⟨"x", sampleTags.tagType, .value⟩]),
      .member (sampleTags.constructor false [⟨"x", sampleTags.tagType, .out⟩])]
    (by decide) (show _ = some (_, _) from rfl)

/-- An attribute whose constructor takes its argument by reference. -/
def sampleTag : Record where
  typeName := "Lib.Outer+Tag`1"
  constructor := ⟨.ofType sampleTags.tagType, ".ctor", [.byRef (.ofType sampleTags.tagType)],
    .simple "System.Void"⟩
  arguments := {}

theorem findConstructor_perform_resolve_sampleTag :
    sampleTags.program.Grown ∧ findConstructor sampleTags.program sampleTag = .ok ⟨2⟩ ∧
    (sampleTags.perform (.resolve (.member ⟨2⟩))
      (sampleTags.performAll [.resolve (.member ⟨1⟩), .resolveType ⟨0⟩] {}).2).1 =
        .handle (.ok (.method 0 0)) ∧
    sampleTags.program.fullName? ⟨1⟩ = some sampleTag.typeName ∧
    ∃ entry method, sampleTags.tagMetadata.types[0]? = some entry ∧
      entry.methods[0]? = some method ∧ method.name = ".ctor" ∧ method.isStatic = false ∧
      method.parameters = sampleTag.constructor.parameters := by
  have hplain : ∀ id m, sampleTags.program.member? id = some m → m.kind = .constructor →
      m.explicitImplementation = none := by
    intro id m hm _
    have hall : ∀ m ∈ sampleTags.program.members, m.explicitImplementation = none := by decide
    exact hall m (List.mem_of_getElem? hm)
  have hfound : findConstructor sampleTags.program sampleTag = .ok ⟨2⟩ := rfl
  obtain ⟨-, hresolves⟩ := findConstructor_perform_resolve sampleTags rfl grown_sampleTags hplain
    sampleTag
  obtain ⟨⟨m, hm, -, hname⟩, hentry⟩ := hresolves ⟨2⟩ hfound
  cases hm
  exact ⟨grown_sampleTags, hfound, rfl, hname,
    (hentry [.resolve (.member ⟨1⟩), .resolveType ⟨0⟩] 0 0 rfl).2⟩

/-- The types of `Program.prefilledSample`, the second one twice. -/
def prefilledMetadata : Module where
  types :=
    [{ name := "A", methods := [{ name := ".ctor" }] }, typeB, typeB]
where
  typeB : Metadata.TypeEntry :=
    { name := "B", methods := [{ name := ".ctor", parameters := [.simple "System.Int32"] }] }

/-- An attribute of the first type, with a constructor of the second. -/
def prefilledTag : Record where
  typeName := "A"
  constructor := ⟨.simple "A", ".ctor", [.simple "System.Int32"], .simple "System.Void"⟩
  arguments := {}

/-- If a type comes with a list of members, the constructor of an attribute can be one of another
type, and be resolved there; and of two types of that name in the metadata it is the second. -/
theorem findConstructor_prefilledTag :
    ∃ p made, Program.addAll? {} Program.prefilledSample = some (p, made) ∧
      findConstructor p prefilledTag = .ok ⟨1⟩ ∧
      (∃ m, p.member? ⟨1⟩ = some m ∧ p.fullName? m.declaringType = some "B") ∧
      (perform { program := p, catalog := .ofModule prefilledMetadata } (.resolve (.member ⟨1⟩))
        {}).1 = .handle (.ok (.method 2 0)) ∧
      [0, 1, 2].map prefilledMetadata.fullName? = [some "A", some "B", some "B"] :=
  ⟨_, _, rfl, rfl, ⟨_, rfl, rfl⟩, rfl, rfl⟩

end Session

end ScriptCompiler
