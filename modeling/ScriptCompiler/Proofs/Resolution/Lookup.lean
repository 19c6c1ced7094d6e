import ScriptCompiler.Proofs.Codec.Enclosing
import ScriptCompiler.Proofs.Resolution.Image

/-!
# Resolution finds the image

If a module is the image of a program and its keys are distinct, then every member has exactly one
candidate, its own entry (`candidates_eq_singleton`).  What is remembered between lookups are
handles of entities that were resolved before, so a cache that holds right handles keeps doing so,
and any sequence of lookups answers with the handles of the image (`answers_mapM`).

Plain indexers need keys of their own: they are looked up by their parameters alone, so two of them
that differ only in their names are told apart by no lookup.
-/

namespace ScriptCompiler.Resolution

open Metadata

/-! ## One candidate -/

/-- The positions are those at which the test holds. -/
lemma mem_positions {α : Type} {test : α → Bool} {items : List α} {j : Nat} :
    j ∈ positions test items ↔ ∃ a, items[j]? = some a ∧ test a = true := by
  simp only [positions, List.mem_map, List.mem_filter, Prod.exists, List.mem_zipIdx_iff_getElem?]
  constructor
  · rintro ⟨a, k, hfound, rfl⟩
    exact ⟨a, hfound⟩
  · rintro ⟨a, hfound⟩
    exact ⟨a, j, hfound, rfl⟩

/-- The positions at which a test holds are one position, if it holds nowhere else. -/
lemma positions_eq_singleton {α : Type} {test : α → Bool} {items : List α} {i : Nat} {a : α}
    (hi : items[i]? = some a) (ha : test a = true)
    (hunique : ∀ {j b}, items[j]? = some b → test b = true → j = i) :
    positions test items = [i] := by
  -- an increasing list whose members are exactly `i`
  have hmem : ∀ j, j ∈ positions test items ↔ j = i := by
    intro j
    rw [mem_positions]
    constructor
    · rintro ⟨b, hb, htest⟩
      exact hunique hb htest
    · rintro rfl
      exact ⟨a, hi, ha⟩
  have hnodup : (positions test items).Nodup := by
    have hsublist : (positions test items).Sublist (items.zipIdx.map (·.2)) :=
      List.Sublist.map _ List.filter_sublist
    refine hsublist.nodup ?_
    rw [List.zipIdx_map_snd]
    exact List.nodup_range'
  cases hpositions : positions test items with
  | nil => simpa [hpositions] using (hmem i).mpr rfl
  | cons j rest =>
    rw [hpositions] at hmem hnodup
    obtain rfl : j = i := (hmem j).mp (by simp)
    cases rest with
    | nil => rfl
    | cons k rest =>
      obtain rfl : k = j := (hmem k).mp (by simp)
      simp at hnodup

section Candidates

variable {p : Program} {entry : MemberId → Nat} {type : TypeId} {t : TypeEntry}

/-- The entry that stands for a method is its image. -/
lemma TypeImage.isMethod (h : TypeImage p entry type t) {j : Nat} {m : Member}
    (hat : MethodAt p entry type t j m) : ∃ e, t.methods[j]? = some e ∧ IsMethod m e := by
  cases hat with
  | declared hm hkind => exact h.method hm hkind
  | ofProperty hm hkind hq hk =>
    obtain ⟨q', hq', hproperty⟩ := h.property hm hkind
    obtain rfl := Option.some.inj (hq.symm.trans hq')
    exact hproperty.accessors.method hk
  | ofEvent hm hkind he hk =>
    obtain ⟨e', he', hevent⟩ := h.event hm hkind
    obtain rfl := Option.some.inj (he.symm.trans he')
    exact hevent.accessors.method hk

variable {id : MemberId} {m : Member}

/-- The only candidate for a member that is not an accessor is its own entry. -/
theorem candidates_eq_singleton (h : TypeImage p entry type t)
    (hkeys : DistinctKeys p entry SameProperty type t) (hm : Declares p type id m)
    (hkind : ∀ owner role, m.kind ≠ .accessor owner role) : candidates t m = [entry id] := by
  have hmethod : IsMethodKind m.kind → positions (methodMatches m) t.methods = [entry id] := by
    intro hk
    obtain ⟨e, he, his⟩ := h.method hm hk
    refine positions_eq_singleton he his.methodMatches_self fun {j b} hb hmatch => ?_
    obtain ⟨a, hat⟩ := h.methods_from hb
    obtain ⟨b', hb', hisb⟩ := h.isMethod hat
    obtain rfl := Option.some.inj (hb.symm.trans hb')
    exact (hkeys.methods (.declared hm hk) hat (hisb.sameMethod his.name hmatch)).symm
  have hproperty : IsPropertyKind m.kind →
      positions (propertyMatches t m) t.properties = [entry id] := by
    intro hk
    have hne : m.kind ≠ .constructor := by rcases hk with hk | hk <;> rw [hk] <;> decide
    obtain ⟨q, hq, his⟩ := h.property hm hk
    refine positions_eq_singleton hq (his.propertyMatches_self hne) fun {j b} hb hmatch => ?_
    obtain ⟨i, a, ha, hka, rfl⟩ := h.properties_from hb
    obtain ⟨b', hb', hisb⟩ := h.property ha hka
    obtain rfl := Option.some.inj (hb.symm.trans hb')
    exact (hkeys.properties hm hk ha hka (hisb.sameProperty his hne hmatch)).symm
  rw [candidates]
  cases hk : m.kind with
  | field =>
    obtain ⟨f, hf, hname⟩ := h.field hm hk
    refine positions_eq_singleton hf (by simp [fieldMatches, hname]) fun {j b} hb hmatch => ?_
    obtain ⟨i, a, ha, hka, rfl⟩ := h.fields_from hb
    obtain ⟨b', hb', hnameb⟩ := h.field ha hka
    obtain rfl := Option.some.inj (hb.symm.trans hb')
    have hsame : b.name = m.name := by simpa [fieldMatches] using hmatch
    exact hkeys.fields ha hka hm hk (hnameb.symm.trans hsame)
  | event =>
    have hne : m.kind ≠ .constructor := by rw [hk]; decide
    obtain ⟨e, he, his⟩ := h.event hm hk
    refine positions_eq_singleton he (his.eventMatches_self hne) fun {j b} hb hmatch => ?_
    obtain ⟨i, a, ha, hka, rfl⟩ := h.events_from hb
    obtain ⟨b', hb', hisb⟩ := h.event ha hka
    obtain rfl := Option.some.inj (hb.symm.trans hb')
    obtain ⟨hname, hinterface⟩ := hisb.sameKey his hne hmatch
    exact (hkeys.events hm hk ha hka hname hinterface).symm
  | method => exact hmethod (.inl hk)
  | operator => exact hmethod (.inr (.inl hk))
  | constructor => exact hmethod (.inr (.inr hk))
  | property => exact hproperty (.inl hk)
  | indexer => exact hproperty (.inr hk)
  | accessor owner role => exact absurd hk (hkind owner role)

/-- An accessor is found through its owner. -/
lemma Wired.accessorIndex?_eq {owner : MemberId} {o : Member} {role : AccessorRole} {k : UInt32}
    (h : Wired entry t owner o role k) (i : Nat) :
    accessorIndex? t (memberHandle o.kind i (entry owner)) role = some k := by
  cases h with
  | @property q hkind hq hk =>
    have hhandle : memberHandle o.kind i (entry owner) = .property i (entry owner) := by
      rcases hkind with hkind | hkind <;> rw [hkind] <;> rfl
    rw [hhandle]
    obtain ⟨rfl, hrole⟩ | ⟨rfl, hrole⟩ := mem_propertyAccessors.mp hk <;>
      simp [accessorIndex?, hq, hrole]
  | @event e hkind he hk =>
    rw [hkind, memberHandle]
    obtain ⟨rfl, hrole⟩ | ⟨rfl, hrole⟩ := mem_eventAccessors.mp hk <;>
      simp [accessorIndex?, he, hrole]

end Candidates

/-! ## Types by name -/

/-- A key with one value is found, wherever it stands. -/
lemma lookup_eq_some_of_unique {α β : Type} [BEq α] [LawfulBEq α] {l : List (α × β)} {k : α}
    {v : β} (hmem : (k, v) ∈ l) (hunique : ∀ {w}, (k, w) ∈ l → w = v) : l.lookup k = some v := by
  cases hl : l.lookup k with
  | none =>
    have := List.lookup_eq_none_iff.mp hl (k, v) hmem
    simp at this
  | some w =>
    obtain ⟨before, after, rfl, _⟩ := List.lookup_eq_some_iff.mp hl
    exact congrArg some (hunique (by simp))

/-- Only types of the module have full names. -/
lemma lt_length_of_fullName? {m : Module} {i : Nat} {name : String}
    (h : m.fullName? i = some name) : i < m.types.length := by
  obtain ⟨chain, hchain, -⟩ := Module.fullName?_eq_some_iff.mp h
  exact hchain.lt_length

/-- The index holds the full names of the types. -/
lemma mem_names_ofModule {m : Module} {name : String} {i : Nat} :
    (name, i) ∈ (Catalog.ofModule m).names ↔ m.fullName? i = some name := by
  simp only [Catalog.ofModule, List.mem_reverse, List.mem_filterMap, List.mem_range,
    Option.map_eq_some_iff, Prod.mk.injEq]
  constructor
  · rintro ⟨k, _, _, hk, rfl, rfl⟩
    exact hk
  · intro hi
    exact ⟨i, lt_length_of_fullName? hi, name, hi, rfl, rfl⟩

/-- A type whose full name no other type has is found by it. -/
lemma findType?_ofModule {m : Module} {i : Nat} {name : String} (h : m.fullName? i = some name)
    (hunique : ∀ {j}, m.fullName? j = some name → j = i) :
    (Catalog.ofModule m).findType? name = some i :=
  lookup_eq_some_of_unique (mem_names_ofModule.mpr h) fun hw => hunique (mem_names_ofModule.mp hw)

/-! ## Lookups -/

/-- The entity is in the program. -/
def Has (p : Program) : Entity → Prop
  | .type id => (p.type? id).isSome
  | .member id => (p.member? id).isSome

/-- A new entry in front keeps what holds of every entry that is found. -/
lemma forall_lookup_cons {β : Type} {right : Entity → β → Prop} {e : Entity} {b : β}
    {cache : List (Entity × β)} (hb : right e b)
    (h : ∀ e' b', cache.lookup e' = some b' → right e' b') :
    ∀ e' b', ((e, b) :: cache).lookup e' = some b' → right e' b' := by
  intro e' b' hlookup
  rw [List.lookup_cons] at hlookup
  by_cases heq : e' = e
  · subst heq
    rw [beq_self_eq_true] at hlookup
    obtain rfl := Option.some.inj hlookup
    exact hb
  · rw [beq_eq_false_iff_ne.mpr heq] at hlookup
    exact h e' b' hlookup

namespace Image

variable {p : Program} {m : Module} (image : Image p m)

/-- The cache only holds handles of the image. -/
def Sound (cache : HandleCache) : Prop :=
  ∀ e h, cache.lookup e = some h → h = image.handle e

/-- From a sound cache, the step yields the value and leaves a sound cache. -/
def Answers {α : Type} (step : Resolve α) (a : α) : Prop :=
  ∀ cache, image.Sound cache → ∃ after, step.run cache = .ok a after ∧ image.Sound after

variable {image}

lemma Answers.pure {α : Type} (a : α) : image.Answers (Pure.pure a) a :=
  fun _ h => ⟨_, rfl, h⟩

/-- Steps answer in turn. -/
lemma Answers.bind {α β : Type} {step : Resolve α} {next : α → Resolve β} {a : α} {b : β}
    (h : image.Answers step a) (hnext : image.Answers (next a) b) :
    image.Answers (step >>= next) b := by
  intro cache hcache
  obtain ⟨middle, hrun, hmiddle⟩ := h cache hcache
  obtain ⟨after, hafter, hsound⟩ := hnext middle hmiddle
  refine ⟨after, ?_, hsound⟩
  rw [EStateM.run] at hrun hafter ⊢
  rw [← hafter]
  show EStateM.bind step next cache = _
  rw [EStateM.bind, hrun]

/-- What is known is the answer. -/
lemma Answers.known {α : Type} {o : Option α} {a : α} (h : o = some a) :
    image.Answers (Resolution.known o) a := by
  rw [h]
  exact .pure a

/-- A step that finds the handle of an entity may be cached. -/
lemma Answers.cached {e : Entity} {compute : Resolve Handle}
    (h : image.Answers compute (image.handle e)) :
    image.Answers (Resolution.cached e compute) (image.handle e) := by
  intro cache hcache
  cases hlookup : cache.lookup e with
  | some found =>
    -- a handle that was found before is the right one
    obtain rfl := hcache e found hlookup
    refine ⟨cache, ?_, hcache⟩
    simp only [Resolution.cached, EStateM.run_bind, EStateM.run_get, hlookup]
    rfl
  | none =>
    obtain ⟨after, hrun, hsound⟩ := h cache hcache
    refine ⟨(e, image.handle e) :: after, ?_, ?_⟩
    · simp only [Resolution.cached, EStateM.run_bind, EStateM.run_get, hlookup, hrun]
      rfl
    · exact forall_lookup_cons rfl hsound

/-- The two sides that are matched. -/
abbrev setting (_ : Image p m) : Setting where
  program := p
  catalog := Catalog.ofModule m

variable {id : TypeId}

/-- A type of the program is found by its full name. -/
lemma answers_resolveType (hid : (p.type? id).isSome) :
    image.Answers (resolveType image.setting id) (image.type id) := by
  obtain ⟨name, hname, himage⟩ := image.named hid
  refine .bind (a := image.handle (.type id)) (.cached ?_) (.pure _)
  refine .bind (.known hname) ?_
  rw [findType?_ofModule himage fun hj => image.names_unique hj himage]
  exact .pure _

/-- The entry of a type is found. -/
lemma answers_typeEntry {t : TypeEntry} (ht : m.types[image.type id]? = some t) :
    image.Answers (typeEntry image.setting (image.type id) id) t := by
  have hentry : image.setting.catalog.type? (image.type id) = some t := ht
  rw [typeEntry, hentry]
  exact .pure t

variable {a : Member} {i : MemberId}

/-- The handle of a member by its kind. -/
lemma handle_member (ha : p.member? i = some a) :
    image.handle (.member i) =
      memberHandle a.kind (image.type a.declaringType) (image.entry i) := by
  cases hk : a.kind <;> simp [handle, ha, hk, memberHandle]

/-- A member that is not an accessor is found as the only candidate. -/
lemma answers_resolveDeclared (hkeys : image.Distinct SameProperty) (ha : p.member? i = some a)
    (hkind : ∀ owner role, a.kind ≠ .accessor owner role) :
    image.Answers (resolveDeclared image.setting i a) (image.handle (.member i)) := by
  have htype := image.declared ha
  obtain ⟨t, ht, himage⟩ := image.tables htype
  have hcandidates : candidates t a = [image.entry i] :=
    candidates_eq_singleton himage (hkeys htype ht) ⟨ha, rfl⟩ hkind
  rw [handle_member ha]
  refine .bind (answers_resolveType htype) ?_
  refine .bind (answers_typeEntry ht) ?_
  rw [hcandidates]
  exact .bind (.pure _) (.pure _)

/-- A member is found if the allowed chain of owners is long enough: one step, and a second one for
an accessor. -/
lemma answers_resolveMemberWithin (hkeys : image.Distinct SameProperty)
    (ha : p.member? i = some a) {depth : Nat}
    (hdepth : ∀ owner role, a.kind = .accessor owner role → 0 < depth) :
    image.Answers (resolveMemberWithin image.setting (depth + 1) i)
      (image.handle (.member i)) := by
  have hdeclared : ∀ {j b n}, p.member? j = some b →
      (∀ owner role, b.kind ≠ .accessor owner role) →
      image.Answers (resolveMemberWithin image.setting (n + 1) j) (image.handle (.member j)) := by
    intro j b n hb hkind
    rw [resolveMemberWithin]
    refine .cached (.bind (.known hb) ?_)
    have hstep := answers_resolveDeclared hkeys hb hkind
    split
    · rename_i owner role hk
      exact absurd hk (hkind owner role)
    · exact hstep
  cases hk : a.kind with
  | accessor owner role =>
    obtain ⟨n, rfl⟩ : ∃ n, depth = n + 1 :=
      ⟨depth - 1, by have := hdepth owner role hk; omega⟩
    have htype := image.declared ha
    obtain ⟨t, ht, himage⟩ := image.tables htype
    obtain ⟨o, k, ⟨ho, hsame⟩, hwired, hentry⟩ := himage.accessor ⟨ha, rfl⟩ hk
    have hplain : ∀ owner' role', o.kind ≠ .accessor owner' role' := by
      intro owner' role' h
      cases hwired with
      | property hkind => rcases hkind with hkind | hkind <;> rw [hkind] at h <;> contradiction
      | event hkind => rw [hkind] at h; contradiction
    have howner : (image.handle (.member owner)).owner = image.type a.declaringType := by
      rw [handle_member ho, hsame]
      cases o.kind <;> rfl
    rw [resolveMemberWithin]
    refine .cached (.bind (.known ha) ?_)
    simp only [hk]
    refine .bind (hdeclared ho hplain) ?_
    refine .bind (.known ho) ?_
    rw [howner, hsame]
    refine .bind (answers_typeEntry ht) ?_
    rw [handle_member ho, hwired.accessorIndex?_eq, handle_member ha, hk, hentry]
    exact .pure _
  | _ =>
    refine hdeclared ha fun owner role h => ?_
    rw [hk] at h
    contradiction

/-- Every entity of the program is resolved to its handle. -/
lemma answers_resolve (hkeys : image.Distinct SameProperty) {e : Entity} (he : Has p e) :
    image.Answers (resolve image.setting e) (image.handle e) := by
  cases e with
  | type id => exact .bind (answers_resolveType he) (.pure _)
  | member i =>
    obtain ⟨a, ha⟩ := Option.isSome_iff_exists.mp he
    have hi : i.index < p.members.length := (List.getElem?_eq_some_iff.mp ha).1
    obtain ⟨depth, hdepth⟩ : ∃ depth, p.members.length = depth + 1 :=
      ⟨p.members.length - 1, by omega⟩
    rw [resolve, hdepth]
    refine answers_resolveMemberWithin hkeys ha fun owner role hk => ?_
    -- an accessor and its owner are two members
    obtain ⟨t, _, himage⟩ := image.tables (image.declared ha)
    obtain ⟨o, k, ⟨ho, _⟩, hwired, _⟩ := himage.accessor ⟨ha, rfl⟩ hk
    have howner : owner.index < p.members.length := (List.getElem?_eq_some_iff.mp ho).1
    have hne : owner.index ≠ i.index := by
      intro heq
      have hsame : o = a := by
        have ha' : p.members[i.index]? = some a := ha
        have ho' : p.members[owner.index]? = some o := ho
        rw [heq] at ho'
        exact Option.some.inj (ho'.symm.trans ha')
      subst hsame
      cases hwired with
      | property hkind => rcases hkind with hkind | hkind <;> rw [hkind] at hk <;> contradiction
      | event hkind => rw [hkind] at hk; contradiction
    omega

/-- Lookups one after the other answer with the handles of the image. -/
theorem answers_mapM (hkeys : image.Distinct SameProperty) {entities : List Entity}
    (he : ∀ e ∈ entities, Has p e) :
    image.Answers (entities.mapM (resolve image.setting)) (entities.map image.handle) := by
  induction entities with
  | nil => exact .pure _
  | cons e entities ih =>
    rw [List.mapM_cons, List.map_cons]
    refine .bind (answers_resolve hkeys (he e (by simp))) ?_
    exact .bind (ih fun e' he' => he e' (by simp [he'])) (.pure _)

/-- If a module is the image of a program and no two entries of a table have the same key, then
any sequence of lookups of entities of the program, from the empty cache, finds for each entity the
entry that belongs to it. -/
theorem resolve_eq_handle (image : Image p m) (hkeys : image.Distinct SameProperty)
    (entities : List Entity) (he : ∀ e ∈ entities, Has p e) :
    ∃ cache, (entities.mapM (resolve ⟨p, Catalog.ofModule m⟩)).run [] =
      .ok (entities.map image.handle) cache := by
  have hempty : image.Sound [] := by
    intro e h hlookup
    contradiction
  obtain ⟨cache, hrun, _⟩ := answers_mapM hkeys he [] hempty
  exact ⟨cache, hrun⟩

end Image

/-! ## Programs with one type -/

lemma eq_of_isSome_type? {p : Program} (hp : p.types.length = 1) {id : TypeId}
    (h : (p.type? id).isSome) : id = ⟨0⟩ := by
  obtain ⟨i⟩ := id
  have hi : i < p.types.length := by simpa [Program.type?] using h
  obtain rfl : i = 0 := by omega
  rfl

lemma eq_zero_of_fullName? {m : Module} (hm : m.types.length = 1) {i : Nat} {name : String}
    (h : m.fullName? i = some name) : i = 0 := by
  have hi := lt_length_of_fullName? h
  omega

/-! ## A program and its image

A method, explicit implementations of it for two instances of one generic interface, an explicit
property with its getter, and an indexer, in tables of another order. -/

namespace Sample

/-- The instance of the generic interface at a type. -/
def store (argument : TypeRef) : TypeRef :=
  .named "Acme.IStore`1" [argument]

def parameter : Parameter := { name := "key", type := .int32 }

/-- The record of an implemented member. -/
def record (interface : TypeRef) (name : String) : MemberSignature :=
  { declaringType := .ofType interface, name, parameters := [], returnType := .ofType .string }

def get : Member :=
  { name := "Get", declaringType := ⟨0⟩, kind := .method, parameters := [parameter],
    returnType := .string }

def storeGet (argument : TypeRef) : Member :=
  { get with explicitImplementation := some { interface := store argument, memberName := "Get" } }

def size : Member :=
  { name := "Size", declaringType := ⟨0⟩, kind := .property, returnType := .int32,
    explicitImplementation :=
      some { interface := .simple "Acme.ISized", memberName := "Size" } }

def item : Member :=
  { name := "Item", declaringType := ⟨0⟩, kind := .indexer, parameters := [parameter],
    returnType := .string }

def program : Program where
  types := [{ path := "Acme", name := "Widget" }]
  members := [get, storeGet .int32, storeGet .string, size, size.accessorFor ⟨3⟩ .getter, item]

def methodEntry (name : String) (implemented : List MemberSignature) : MethodEntry :=
  { name, parameters := [.ofType .int32], returnType := .ofType .string, implemented }

def sizeGetter : MethodEntry :=
  { name := "Acme.ISized.get_Size", returnType := .ofType .int32,
    implemented := [record (.simple "Acme.ISized") "get_Size"] }

def entry : TypeEntry where
  path := "Acme"
  name := "Widget"
  methods :=
    [sizeGetter,
      methodEntry "Acme.IStore<System.String>.Get" [record (store .string) "Get"],
      methodEntry "Get" [],
      methodEntry "Acme.IStore<System.Int32>.Get" [record (store .int32) "Get"]]
  properties :=
    [{ name := "Item", type := .ofType .string, parameters := [.ofType .int32] },
      { name := "Acme.ISized.Size", type := .ofType .int32, getter := some 0 }]

def module : Module where
  name := "widgets"
  types := [entry]

/-- Positions in the tables. -/
def position (id : MemberId) : Nat :=
  [2, 3, 1, 1, 0, 0].getD id.index 0

/-- The members of the program, by id. -/
inductive Listed : MemberId → Member → Prop
  | get : Listed ⟨0⟩ get
  | integerGet : Listed ⟨1⟩ (storeGet .int32)
  | stringGet : Listed ⟨2⟩ (storeGet .string)
  | size : Listed ⟨3⟩ size
  | sizeGet : Listed ⟨4⟩ (size.accessorFor ⟨3⟩ .getter)
  | item : Listed ⟨5⟩ item

lemma declares_cases {type : TypeId} {id : MemberId} {a : Member}
    (h : Declares program type id a) : type = ⟨0⟩ ∧ Listed id a := by
  obtain ⟨ha, rfl⟩ := h
  obtain ⟨i⟩ := id
  rcases i with _ | _ | _ | _ | _ | _ | i
  all_goals first
    | (obtain rfl : _ = a := Option.some.inj ha
       exact ⟨rfl, by constructor⟩)
    | (simp [Program.member?, program] at ha)

lemma isMethod_get : IsMethod get (methodEntry "Get" []) where
  name := .simple rfl (by decide) (by decide)
  parameters := rfl
  returnType := rfl
  arity := rfl
  isStatic := rfl
  implemented h := by contradiction

/-- An entry with type arguments behind the name of the interface is an image of the
implementation for these arguments. -/
lemma isMethod_storeGet (argument : TypeRef) {text spelling : String}
    (htext : Unbracketed text.toList)
    (hspelling : spelling.toList = "Acme.IStore".toList ++ '<' :: (text.toList ++ ['>'])) :
    IsMethod (storeGet argument)
      (methodEntry (spelling ++ "." ++ "Get") [record (store argument) "Get"]) where
  name := by
    have hmember : IsSimple "Get" := by decide
    have hne : spelling ≠ "" := by
      rintro rfl
      simp at hspelling
    let tail : PartTail :=
      { arguments := some text, balanced := by simpa using Balanced.of_unbracketed htext }
    have hspelled : SpelledAs ("Acme.IStore".toList ++ (PartTail.ofCount 1).chars)
        ("Acme.IStore".toList ++ tail.chars) := .outermost 1 tail (by decide)
    refine .explicit (x := ⟨store argument, "Get"⟩) rfl hmember rfl hne ?_
    rw [hspelling]
    exact hspelled
  parameters := rfl
  returnType := rfl
  arity := rfl
  isStatic := by simp [methodEntry, MethodEntry.isStatic, storeGet, get]
  implemented h := by
    obtain rfl := Option.some.inj h
    exact ⟨by simp [methodEntry], by simp [methodEntry, record]⟩

/-- An interface without type arguments is spelled as it is. -/
lemma storedAs_sized {a : Member} {member : String}
    (ha : a.explicitImplementation = some ⟨.simple "Acme.ISized", member⟩)
    (hmember : IsSimple member) : StoredAs a ("Acme.ISized" ++ "." ++ member) := by
  have hspelled : SpelledAs ("Acme.ISized".toList ++ (PartTail.ofCount 0).chars)
      ("Acme.ISized".toList ++ (PartTail.ofCount 0).chars) := .outermost 0 _ (by decide)
  exact .explicit ha hmember rfl (by decide) hspelled

lemma isMethod_sizeGetter : IsMethod (storedAccessor size ⟨3⟩ .getter) sizeGetter where
  name := by
    have hmember : IsSimple "get_Size" := by decide
    exact storedAs_sized rfl hmember
  parameters := rfl
  returnType := rfl
  arity := rfl
  isStatic := rfl
  implemented h := by
    obtain rfl := Option.some.inj h
    exact ⟨by decide, by decide⟩

lemma isProperty_size : IsProperty entry ⟨3⟩ size
    { name := "Acme.ISized.Size", type := .ofType .int32, getter := some 0 } where
  name := by
    have hmember : IsSimple "Size" := by decide
    exact storedAs_sized rfl hmember
  type := rfl
  parameters := rfl
  accessors :=
    { method := by
        intro role k hk
        obtain ⟨rfl, hget⟩ | ⟨rfl, hset⟩ := mem_propertyAccessors.mp hk
        · obtain rfl := Option.some.inj hget
          exact ⟨sizeGetter, rfl, isMethod_sizeGetter⟩
        · contradiction
      ne_nil := by decide }
  indexer := by decide

lemma isProperty_item : IsProperty entry ⟨5⟩ item
    { name := "Item", type := .ofType .string, parameters := [.ofType .int32] } where
  name := .simple rfl (by decide) (by decide)
  type := rfl
  parameters := rfl
  accessors :=
    { method := by
        intro role k hk
        obtain ⟨_, hget⟩ | ⟨_, hset⟩ := mem_propertyAccessors.mp hk <;> contradiction
      ne_nil := by decide }
  indexer := by decide

/-- The methods of the entry, with the members that they stand for. -/
lemma methodAt_cases {type : TypeId} {j : Nat} {a : Member}
    (h : MethodAt program position type entry j a) :
    j = 2 ∧ a = get ∨ j = 3 ∧ a = storeGet .int32 ∨ j = 1 ∧ a = storeGet .string ∨
      j = 0 ∧ a = storedAccessor size ⟨3⟩ .getter := by
  cases h with
  | declared hm hkind =>
    cases (declares_cases hm).2 with
    | get | integerGet | stringGet => simp [position]
    | _ => simp [IsMethodKind, size, item, Member.accessorFor] at hkind
  | @ofProperty id m q role k hm hkind hq hk =>
    cases (declares_cases hm).2 with
    | size =>
      obtain rfl := Option.some.inj hq
      obtain ⟨rfl, hget⟩ | ⟨rfl, hset⟩ := mem_propertyAccessors.mp hk
      · obtain rfl := Option.some.inj hget
        simp
      · contradiction
    | item =>
      obtain rfl := Option.some.inj hq
      obtain ⟨_, hget⟩ | ⟨_, hset⟩ := mem_propertyAccessors.mp hk <;> contradiction
    | _ => simp [IsPropertyKind, get, storeGet, Member.accessorFor] at hkind
  | ofEvent _ _ he _ => simp [entry] at he

/-- The sample type has an image. -/
lemma typeImage : TypeImage program position ⟨0⟩ entry where
  field hm hkind := by
    cases (declares_cases hm).2 <;> contradiction
  method hm hkind := by
    cases (declares_cases hm).2 with
    | get => exact ⟨_, rfl, isMethod_get⟩
    | integerGet =>
      have hspelling : "Acme.IStore<System.Int32>".toList =
          "Acme.IStore".toList ++ '<' :: ("System.Int32".toList ++ ['>']) := by decide
      exact ⟨_, rfl, isMethod_storeGet .int32 (by decide) hspelling⟩
    | stringGet =>
      have hspelling : "Acme.IStore<System.String>".toList =
          "Acme.IStore".toList ++ '<' :: ("System.String".toList ++ ['>']) := by decide
      exact ⟨_, rfl, isMethod_storeGet .string (by decide) hspelling⟩
    | _ => simp [IsMethodKind, size, item, Member.accessorFor] at hkind
  property hm hkind := by
    cases (declares_cases hm).2 with
    | size => exact ⟨_, rfl, isProperty_size⟩
    | item => exact ⟨_, rfl, isProperty_item⟩
    | _ => simp [IsPropertyKind, get, storeGet, Member.accessorFor] at hkind
  event hm hkind := by
    cases (declares_cases hm).2 <;> contradiction
  accessor hm hkind := by
    cases (declares_cases hm).2 with
    | sizeGet =>
      obtain ⟨rfl, rfl⟩ := MemberKind.accessor.inj hkind
      exact ⟨size, 0, ⟨rfl, rfl⟩, .property (.inl rfl) rfl (by decide), rfl⟩
    | _ => contradiction
  fields_from hf := by simp [entry] at hf
  methods_from {j e} he := by
    have hdeclared : ∀ id a, Declares program ⟨0⟩ id a → a.kind = .method →
        ∃ a, MethodAt program position ⟨0⟩ entry (position id) a :=
      fun id a ha hkind => ⟨a, .declared ha (.inl hkind)⟩
    rcases j with _ | _ | _ | _ | j
    · have haccessor : MethodAt program position ⟨0⟩ entry (0 : UInt32).toNat
          (storedAccessor size ⟨3⟩ .getter) :=
        .ofProperty ⟨rfl, rfl⟩ (.inl rfl) rfl (mem_propertyAccessors.mpr (.inl ⟨rfl, rfl⟩))
      exact ⟨_, haccessor⟩
    · exact hdeclared ⟨2⟩ (storeGet .string) ⟨rfl, rfl⟩ rfl
    · exact hdeclared ⟨0⟩ get ⟨rfl, rfl⟩ rfl
    · exact hdeclared ⟨1⟩ (storeGet .int32) ⟨rfl, rfl⟩ rfl
    · simp [entry] at he
  properties_from {j q} hq := by
    rcases j with _ | _ | j
    · exact ⟨⟨5⟩, item, ⟨rfl, rfl⟩, .inr rfl, rfl⟩
    · exact ⟨⟨3⟩, size, ⟨rfl, rfl⟩, .inl rfl, rfl⟩
    · simp [entry] at hq
  events_from he := by simp [entry] at he

/-- The module is the image of the program. -/
def image : Image program module where
  type _ := 0
  entry := position
  declared h := by
    obtain ⟨htype, _⟩ := declares_cases ⟨h, rfl⟩
    rw [htype]
    rfl
  named h := by
    rw [eq_of_isSome_type? rfl h]
    exact ⟨"Acme.Widget", by decide, by decide⟩
  names_unique hi hj := by rw [eq_zero_of_fullName? rfl hi, eq_zero_of_fullName? rfl hj]
  tables h := by
    rw [eq_of_isSome_type? rfl h]
    exact ⟨entry, rfl, typeImage⟩

/-- Its members have different keys. -/
lemma distinctKeys : DistinctKeys program position SameProperty ⟨0⟩ entry where
  fields ha hka _ _ _ := by
    cases (declares_cases ha).2 <;> contradiction
  methods ha hb hsame := by
    obtain ⟨_, hinterface, _⟩ := hsame
    obtain ⟨rfl, rfl⟩ | ⟨rfl, rfl⟩ | ⟨rfl, rfl⟩ | ⟨rfl, rfl⟩ := methodAt_cases ha <;>
      obtain ⟨rfl, rfl⟩ | ⟨rfl, rfl⟩ | ⟨rfl, rfl⟩ | ⟨rfl, rfl⟩ := methodAt_cases hb <;>
      first
        | rfl
        | exact absurd hinterface (by decide)
  properties ha hka hb hkb hsame := by
    have hparameters : _ = _ := hsame.elim (·.2.2) (·.parameters)
    cases (declares_cases ha).2 <;>
      first
        | (simp [IsPropertyKind, get, storeGet, Member.accessorFor] at hka; done)
        | (cases (declares_cases hb).2 <;>
            first
              | rfl
              | (simp [IsPropertyKind, get, storeGet, Member.accessorFor] at hkb; done)
              | exact absurd hparameters (by decide))
  events ha hka _ _ _ _ := by
    cases (declares_cases ha).2 <;> contradiction

/-- So the image is distinct. -/
lemma distinct : image.Distinct SameProperty := by
  intro id t hid ht
  obtain rfl := eq_of_isSome_type? rfl hid
  obtain rfl : entry = t := Option.some.inj ht
  exact distinctKeys

/-- The members are found from the last to the first, and the getter once more. -/
theorem resolve_eq_handle_widget :
    ∃ cache, ([Entity.member ⟨5⟩, .member ⟨4⟩, .member ⟨3⟩, .member ⟨2⟩, .member ⟨1⟩, .member ⟨0⟩,
        .type ⟨0⟩, .member ⟨4⟩].mapM (resolve ⟨program, Catalog.ofModule module⟩)).run [] =
      .ok [.property 0 0, .method 0 0, .property 0 1, .method 0 1, .method 0 3, .method 0 2,
        .type 0, .method 0 0] cache :=
  Image.resolve_eq_handle image distinct _ (by simp [Has, program, Program.member?, Program.type?])

end Sample

/-! ## Indexers that differ only in their names -/

namespace Renamed

/-- An indexer by integers with the given name. -/
def indexer (name : String) : Member :=
  { name, declaringType := ⟨0⟩, kind := .indexer, parameters := [Sample.parameter],
    returnType := .string }

def program : Program where
  types := [{ path := "Acme", name := "Grid" }]
  members := [indexer "Row", indexer "Column"]

def property (name : String) : PropertyEntry :=
  { name, type := .ofType .string, parameters := [.ofType .int32] }

def entry : TypeEntry where
  path := "Acme"
  name := "Grid"
  properties := [property "Row", property "Column"]

def module : Module where
  name := "grids"
  types := [entry]

lemma declares_cases {type : TypeId} {id : MemberId} {a : Member}
    (h : Declares program type id a) :
    type = ⟨0⟩ ∧ (id = ⟨0⟩ ∧ a = indexer "Row" ∨ id = ⟨1⟩ ∧ a = indexer "Column") := by
  obtain ⟨ha, rfl⟩ := h
  obtain ⟨_ | _ | i⟩ := id
  · obtain rfl : _ = a := Option.some.inj ha
    simp [indexer]
  · obtain rfl : _ = a := Option.some.inj ha
    simp [indexer]
  · simp [Program.member?, program] at ha

lemma kind_eq {type : TypeId} {id : MemberId} {a : Member} (h : Declares program type id a) :
    a.kind = .indexer := by
  obtain ⟨_, ⟨rfl, rfl⟩ | ⟨rfl, rfl⟩⟩ := declares_cases h <;> rfl

lemma isProperty (id : MemberId) {name : String} (hname : IsSimple name) :
    IsProperty entry id (indexer name) (property name) where
  name := .simple rfl (by simp [indexer]) hname
  type := rfl
  parameters := rfl
  accessors :=
    { method := by
        intro role k hk
        obtain ⟨_, hget⟩ | ⟨_, hset⟩ := mem_propertyAccessors.mp hk <;> contradiction
      ne_nil := by simp [indexer] }
  indexer := by simp [indexer]

/-- The sample type has an image. -/
lemma typeImage : TypeImage program (·.index) ⟨0⟩ entry where
  field hm hkind := by rw [kind_eq hm] at hkind; contradiction
  method hm hkind := by simp [IsMethodKind, kind_eq hm] at hkind
  property hm _ := by
    obtain ⟨_, ⟨rfl, rfl⟩ | ⟨rfl, rfl⟩⟩ := declares_cases hm
    · exact ⟨_, rfl, isProperty ⟨0⟩ (by decide)⟩
    · exact ⟨_, rfl, isProperty ⟨1⟩ (by decide)⟩
  event hm hkind := by rw [kind_eq hm] at hkind; contradiction
  accessor hm hkind := by rw [kind_eq hm] at hkind; contradiction
  fields_from hf := by simp [entry] at hf
  methods_from he := by simp [entry] at he
  properties_from {j q} hq := by
    rcases j with _ | _ | j
    · exact ⟨⟨0⟩, _, ⟨rfl, rfl⟩, .inr rfl, rfl⟩
    · exact ⟨⟨1⟩, _, ⟨rfl, rfl⟩, .inr rfl, rfl⟩
    · simp [entry] at hq
  events_from he := by simp [entry] at he

/-- The module is the image of the program. -/
def image : Image program module where
  type _ := 0
  entry := (·.index)
  declared h := by
    obtain ⟨htype, _⟩ := declares_cases ⟨h, rfl⟩
    rw [htype]
    rfl
  named h := by
    rw [eq_of_isSome_type? rfl h]
    exact ⟨"Acme.Grid", by decide, by decide⟩
  names_unique hi hj := by rw [eq_zero_of_fullName? rfl hi, eq_zero_of_fullName? rfl hj]
  tables h := by
    rw [eq_of_isSome_type? rfl h]
    exact ⟨entry, rfl, typeImage⟩

/-- Names, interfaces and parameters tell the entries apart. -/
lemma distinct : image.Distinct SameNamed := by
  intro id t hid ht
  obtain rfl := eq_of_isSome_type? rfl hid
  obtain rfl : entry = t := Option.some.inj ht
  refine ⟨?_, ?_, ?_, ?_⟩
  · intro i j a b ha hka
    rw [kind_eq ha] at hka
    contradiction
  · intro i j a b ha
    cases ha with
    | declared hm hkind => simp [IsMethodKind, kind_eq hm] at hkind
    | @ofProperty id m q role k hm _ hq hk =>
      obtain ⟨_, ⟨rfl, rfl⟩ | ⟨rfl, rfl⟩⟩ := declares_cases hm <;>
        obtain rfl := Option.some.inj hq <;>
        obtain ⟨_, hget⟩ | ⟨_, hset⟩ := mem_propertyAccessors.mp hk <;> contradiction
    | ofEvent _ _ he _ => simp [entry] at he
  · intro i j a b ha _ hb _ hsame
    have hname := hsame.name
    obtain ⟨_, ⟨rfl, rfl⟩ | ⟨rfl, rfl⟩⟩ := declares_cases ha <;>
      obtain ⟨_, ⟨rfl, rfl⟩ | ⟨rfl, rfl⟩⟩ := declares_cases hb <;>
      first
        | rfl
        | exact absurd hname (by decide)
  · intro i j a b ha hka
    rw [kind_eq ha] at hka
    contradiction

/-- Keys that count the names of plain indexers are not enough: here they are distinct, and neither
indexer is found. -/
theorem resolve_renamed_indexers :
    ∃ image : Image program module, image.Distinct SameNamed ∧
      image.handle (.member ⟨0⟩) = .property 0 0 ∧ image.handle (.member ⟨1⟩) = .property 0 1 ∧
      (resolve ⟨program, Catalog.ofModule module⟩ (.member ⟨0⟩)).run [] =
        .error (.ambiguousMatch "Acme.Grid.Row(System.Int32)" 2) [(.type ⟨0⟩, .type 0)] ∧
      (resolve ⟨program, Catalog.ofModule module⟩ (.member ⟨1⟩)).run [] =
        .error (.ambiguousMatch "Acme.Grid.Column(System.Int32)" 2) [(.type ⟨0⟩, .type 0)] :=
  ⟨image, distinct, rfl, rfl, rfl, rfl⟩

end Renamed

end ScriptCompiler.Resolution
