import ScriptCompiler.Proofs.Codec.Normalization
import ScriptCompiler.Proofs.Resolution.Caching
import ScriptCompiler.Proofs.Resolution.Lookup

/-!
# What a handle stands for

`Denotes` says which entry of the metadata a handle stands for: the last type of the full name, the
only entry of the declaring type that belongs to the member, or the method that the property or
event of an accessor names.  It asks nothing of the program and nothing of the lookups before.

If the metadata was read from bytes, every lookup yields handles that denote its entity and leaves
a cache of such handles, whether it fails or not (`keeps_resolve`).  Accessors are the reason for
the hypothesis: their positions come from the file, and only the reader checks them.
-/

namespace ScriptCompiler

open Metadata

namespace Metadata

/-! ## Entries of the tables -/

/-- The handle addresses an entry of the tables, which has the given attributes. -/
inductive Catalog.Holds (c : Catalog) : Handle → List AttributeEntry → Prop
  | type {i : Nat} {t : TypeEntry} : c.type? i = some t → Holds c (.type i) t.attributes
  | field {i k : Nat} {t : TypeEntry} {entry : FieldEntry} :
      c.type? i = some t → t.fields[k]? = some entry → Holds c (.field i k) entry.attributes
  | method {i k : Nat} {t : TypeEntry} {entry : MethodEntry} :
      c.type? i = some t → t.methods[k]? = some entry → Holds c (.method i k) entry.attributes
  | property {i k : Nat} {t : TypeEntry} {entry : PropertyEntry} :
      c.type? i = some t → t.properties[k]? = some entry → Holds c (.property i k) entry.attributes
  | event {i k : Nat} {t : TypeEntry} {entry : EventEntry} :
      c.type? i = some t → t.events[k]? = some entry → Holds c (.event i k) entry.attributes

/-- The attributes of a handle are those of its entry. -/
lemma Catalog.Holds.attributes_eq {c : Catalog} {h : Handle} {attributes : List AttributeEntry}
    (hholds : c.Holds h attributes) : c.attributes h = attributes := by
  rcases hholds with ht | ⟨ht, hk⟩ | ⟨ht, hk⟩ | ⟨ht, hk⟩ | ⟨ht, hk⟩
  · simp only [Catalog.attributes, Handle.owner, ht]
  all_goals simp only [Catalog.attributes, Handle.owner, ht, hk, Option.elim_some]

/-- The index of the catalog finds the last type of a name, and the accessors of its types are
among their methods. -/
structure Catalog.Sound (c : Catalog) : Prop where
  findType : ∀ {name i}, c.findType? name = some i →
    c.module.fullName? i = some name ∧ ∀ j, c.module.fullName? j = some name → j ≤ i
  accessors : ∀ t ∈ c.module.types, t.AccessorsInside

/-- The index of a module lists its types from the last to the first. -/
lemma pairwise_names_ofModule (m : Module) :
    (Catalog.ofModule m).names.Pairwise fun a b => b.2 < a.2 := by
  simp only [Catalog.ofModule, List.pairwise_reverse]
  refine List.pairwise_lt_range.filterMap _ fun i j hij a ha b hb => ?_
  simp only [Option.map_eq_some_iff] at ha hb
  obtain ⟨_, -, rfl⟩ := ha
  obtain ⟨_, -, rfl⟩ := hb
  exact hij

/-- A type that is found by its name has the name, and no later type has it. -/
lemma findType?_ofModule_eq_some {m : Module} {name : String} {i : Nat}
    (h : (Catalog.ofModule m).findType? name = some i) :
    m.fullName? i = some name ∧ ∀ j, m.fullName? j = some name → j ≤ i := by
  obtain ⟨before, after, hnames, hbefore⟩ := List.lookup_eq_some_iff.mp h
  have hsorted := pairwise_names_ofModule m
  rw [hnames, List.pairwise_append, List.pairwise_cons] at hsorted
  refine ⟨Resolution.mem_names_ofModule.mp (by simp [hnames]), fun j hj => ?_⟩
  have hmem := Resolution.mem_names_ofModule.mpr hj
  rw [hnames, List.mem_append, List.mem_cons] at hmem
  rcases hmem with hmem | heq | hmem
  · exact absurd (hbefore _ hmem) (by simp)
  · exact Nat.le_of_eq (Prod.mk.inj heq).2
  · exact Nat.le_of_lt (hsorted.2.1.1 _ hmem)

/-- Metadata that was read from bytes is sound. -/
lemma Catalog.sound_of_ofBytes {data : Binary.Bytes} {c : Catalog}
    (h : Catalog.ofBytes data = .ok c) : c.Sound := by
  unfold Catalog.ofBytes at h
  cases hm : Module.decode data with
  | error e =>
    rw [hm] at h
    cases h
  | ok m =>
    rw [hm] at h
    cases h
    exact ⟨findType?_ofModule_eq_some, Module.accessorsInside_of_decode hm⟩

end Metadata

namespace Resolution

/-! ## Entities and their entries -/

/-- The test holds at the given position of the list and nowhere else. -/
def Only {α : Type} (test : α → Bool) (items : List α) (i : Nat) : Prop :=
  ∃ a, items[i]? = some a ∧ test a = true ∧ ∀ j b, items[j]? = some b → test b = true → j = i

lemma only_of_positions {α : Type} {test : α → Bool} {items : List α} {i : Nat}
    (h : positions test items = [i]) : Only test items i := by
  obtain ⟨a, ha, htest⟩ := mem_positions.mp (h ▸ List.mem_singleton_self i)
  refine ⟨a, ha, htest, fun j b hb hj => ?_⟩
  have hmem : j ∈ positions test items := mem_positions.mpr ⟨b, hb, hj⟩
  rw [h] at hmem
  exact List.mem_singleton.mp hmem

/-- The handle stands for the entity.  Which kinds of handles there are for a member depends on its
kind. -/
inductive Denotes (s : Setting) : Entity → Handle → Prop
  | type {id : TypeId} {name : String} {i : Nat} :
      s.program.fullName? id = some name → s.catalog.module.fullName? i = some name →
      (∀ j, s.catalog.module.fullName? j = some name → j ≤ i) → Denotes s (.type id) (.type i)
  | field {id : MemberId} {m : Member} {i k : Nat} {t : TypeEntry} :
      s.program.member? id = some m → m.kind = .field →
      Denotes s (.type m.declaringType) (.type i) → s.catalog.type? i = some t →
      Only (fieldMatches m) t.fields k → Denotes s (.member id) (.field i k)
  | method {id : MemberId} {m : Member} {i k : Nat} {t : TypeEntry} :
      s.program.member? id = some m →
      m.kind = .method ∨ m.kind = .operator ∨ m.kind = .constructor →
      Denotes s (.type m.declaringType) (.type i) → s.catalog.type? i = some t →
      Only (methodMatches m) t.methods k → Denotes s (.member id) (.method i k)
  | property {id : MemberId} {m : Member} {i k : Nat} {t : TypeEntry} :
      s.program.member? id = some m → m.kind = .property ∨ m.kind = .indexer →
      Denotes s (.type m.declaringType) (.type i) → s.catalog.type? i = some t →
      Only (propertyMatches t m) t.properties k → Denotes s (.member id) (.property i k)
  | event {id : MemberId} {m : Member} {i k : Nat} {t : TypeEntry} :
      s.program.member? id = some m → m.kind = .event →
      Denotes s (.type m.declaringType) (.type i) → s.catalog.type? i = some t →
      Only (eventMatches t m) t.events k → Denotes s (.member id) (.event i k)
  | accessor {id owner : MemberId} {m : Member} {role : AccessorRole} {h : Handle} {t : TypeEntry}
      {k : UInt32} :
      s.program.member? id = some m → m.kind = .accessor owner role →
      Denotes s (.member owner) h → s.catalog.type? h.owner = some t →
      accessorIndex? t h role = some k → k.toNat < t.methods.length →
      Denotes s (.member id) (.method h.owner k.toNat)

variable {s : Setting}

/-- A handle that stands for an entity addresses an entry, and its attributes are read from it. -/
lemma Denotes.holds {e : Entity} {h : Handle} (hdenotes : Denotes s e h) :
    s.catalog.Holds h (s.catalog.attributes h) := by
  suffices hentry : ∃ attributes, s.catalog.Holds h attributes by
    obtain ⟨attributes, hholds⟩ := hentry
    rwa [hholds.attributes_eq]
  rcases hdenotes with ⟨-, hname, -⟩ | ⟨-, -, -, ht, _, hk, -⟩ | ⟨-, -, -, ht, _, hk, -⟩ |
    ⟨-, -, -, ht, _, hk, -⟩ | ⟨-, -, -, ht, _, hk, -⟩ | ⟨-, -, -, ht, -, hk⟩
  · exact ⟨_, .type (List.getElem?_eq_getElem (lt_length_of_fullName? hname))⟩
  · exact ⟨_, .field ht hk⟩
  · exact ⟨_, .method ht hk⟩
  · exact ⟨_, .property ht hk⟩
  · exact ⟨_, .event ht hk⟩
  · exact ⟨_, .method ht (List.getElem?_eq_getElem hk)⟩

/-- Types have handles of types. -/
lemma Denotes.type_owner {id : TypeId} {h : Handle} (hdenotes : Denotes s (.type id) h) :
    h = .type h.owner := by
  cases hdenotes
  rfl

/-- The only candidate of a member that is no accessor stands for it. -/
lemma denotes_memberHandle {id : MemberId} {m : Member} {i k : Nat} {t : TypeEntry}
    (hm : s.program.member? id = some m) (htype : Denotes s (.type m.declaringType) (.type i))
    (ht : s.catalog.type? i = some t) (hk : candidates t m = [k]) :
    Denotes s (.member id) (memberHandle m.kind i k) := by
  unfold candidates at hk
  cases hkind : m.kind with
  | field =>
    rw [hkind] at hk
    exact .field hm hkind htype ht (only_of_positions hk)
  | method =>
    rw [hkind] at hk
    exact .method hm (.inl hkind) htype ht (only_of_positions hk)
  | operator =>
    rw [hkind] at hk
    exact .method hm (.inr (.inl hkind)) htype ht (only_of_positions hk)
  | constructor =>
    rw [hkind] at hk
    exact .method hm (.inr (.inr hkind)) htype ht (only_of_positions hk)
  | property =>
    rw [hkind] at hk
    exact .property hm (.inl hkind) htype ht (only_of_positions hk)
  | indexer =>
    rw [hkind] at hk
    exact .property hm (.inr hkind) htype ht (only_of_positions hk)
  | event =>
    rw [hkind] at hk
    exact .event hm hkind htype ht (only_of_positions hk)
  | accessor owner role =>
    rw [hkind] at hk
    cases hk

/-- The method that a property or event names is there. -/
lemma lt_of_accessorIndex? {t : TypeEntry} (ht : t.AccessorsInside) {h : Handle}
    {role : AccessorRole} {k : UInt32} (hk : accessorIndex? t h role = some k) :
    k.toNat < t.methods.length := by
  unfold accessorIndex? at hk
  split at hk
  case h_5 => cases hk
  all_goals
    obtain ⟨entry, hentry, hfound⟩ := Option.bind_eq_some_iff.mp hk
    have hmem := List.mem_of_getElem? hentry
  · exact ht.property hmem k (by simp [hfound])
  · exact ht.property hmem k (by simp [hfound])
  · exact ht.event hmem k (by simp [hfound])
  · exact ht.event hmem k (by simp [hfound])

/-! ## Steps that keep what is remembered right -/

section Keeps

variable {ε σ α β : Type} {invariant : σ → Prop}

/-- From a state with the invariant, the step leaves such a state, and what it yields has the
property. -/
def Keeps (invariant : σ → Prop) (step : EStateM ε σ α) (post : α → Prop) : Prop :=
  ∀ c, invariant c → ∃ after, invariant after ∧
    ((∃ a, step c = answer (.ok a) after ∧ post a) ∨ ∃ e, step c = answer (.error e) after)

lemma Keeps.pure {post : α → Prop} {a : α} (h : post a) :
    Keeps (ε := ε) invariant (Pure.pure a) post :=
  fun c hc => ⟨c, hc, .inl ⟨a, rfl, h⟩⟩

lemma Keeps.throw {post : α → Prop} (e : ε) :
    Keeps invariant (MonadExcept.throw e : EStateM ε σ α) post :=
  fun c hc => ⟨c, hc, .inr ⟨e, rfl⟩⟩

lemma Keeps.bind {step : EStateM ε σ α} {next : α → EStateM ε σ β} {middle : α → Prop}
    {post : β → Prop} (h : Keeps invariant step middle)
    (hnext : ∀ a, middle a → Keeps invariant (next a) post) :
    Keeps invariant (step >>= next) post := by
  intro c hc
  obtain ⟨between, hbetween, ⟨a, hrun, ha⟩ | ⟨e, hrun⟩⟩ := h c hc
  · rw [bind_of_ok hrun]
    exact hnext a ha between hbetween
  · exact ⟨between, hbetween, .inr ⟨e, bind_of_error hrun⟩⟩

lemma Keeps.known {invariant : HandleCache → Prop} (o : Option α) :
    Keeps invariant (Resolution.known o) fun a => o = some a := by
  cases o with
  | none => exact .throw _
  | some a => exact .pure rfl

end Keeps

/-- Every handle of the cache stands for its entity. -/
def HandlesDenote (s : Setting) (cache : HandleCache) : Prop :=
  ∀ e h, cache.lookup e = some h → Denotes s e h

lemma handlesDenote_nil : HandlesDenote s [] := by
  simp [HandlesDenote]

/-- A step that finds what is right for an entity may be cached. -/
lemma Keeps.cached {right : Entity → Handle → Prop} {e : Entity} {compute : Resolve Handle}
    (h : Keeps (fun cache => ∀ e h, cache.lookup e = some h → right e h) compute (right e)) :
    Keeps (fun cache => ∀ e h, cache.lookup e = some h → right e h) (Resolution.cached e compute)
      (right e) := by
  intro cache hcache
  have hget : (get : Resolve HandleCache) cache = answer (.ok cache) cache := rfl
  unfold Resolution.cached
  rw [bind_of_ok hget]
  cases hlookup : cache.lookup e with
  | some found => exact ⟨cache, hcache, .inl ⟨found, rfl, hcache e found hlookup⟩⟩
  | none =>
    obtain ⟨after, hafter, ⟨found, hrun, hfound⟩ | ⟨error, hrun⟩⟩ := h cache hcache
    · exact ⟨(e, found) :: after, forall_lookup_cons hfound hafter,
        .inl ⟨found, bind_of_ok hrun, hfound⟩⟩
    · exact ⟨after, hafter, .inr ⟨error, bind_of_error hrun⟩⟩

/-! ## Resolution -/

section Resolve

variable {invariant : HandleCache → Prop}

lemma keeps_typeEntry (i : Nat) (id : TypeId) :
    Keeps invariant (typeEntry s i id) fun t => s.catalog.type? i = some t := by
  unfold typeEntry
  cases s.catalog.type? i with
  | none => exact (Keeps.known _).bind fun _ _ => .throw _
  | some t => exact .pure rfl

lemma keeps_single (id : MemberId) (m : Member) (found : List Nat) :
    Keeps invariant (single s id m found) fun i => found = [i] := by
  unfold single
  split
  · exact .pure rfl
  · exact (Keeps.known _).bind fun _ _ => (Keeps.known _).bind fun _ _ => .throw _
  · exact (Keeps.known _).bind fun _ _ => .throw _

variable (hs : s.catalog.Sound)
include hs

/-- A type is found as the last one of its name. -/
lemma keeps_resolveType (id : TypeId) :
    Keeps (HandlesDenote s) (resolveType s id) fun i => Denotes s (.type id) (.type i) := by
  refine (Keeps.cached (e := .type id) ?_).bind fun h hh => .pure (hh.type_owner ▸ hh)
  refine (Keeps.known _).bind fun name hname => ?_
  cases hfind : s.catalog.findType? name with
  | none => exact .throw _
  | some i =>
    obtain ⟨himage, hlast⟩ := hs.findType hfind
    exact .pure (.type hname himage hlast)

/-- A member that is no accessor is found as the only candidate of its type. -/
lemma keeps_resolveDeclared {id : MemberId} {m : Member} (hm : s.program.member? id = some m) :
    Keeps (HandlesDenote s) (resolveDeclared s id m) (Denotes s (.member id)) := by
  refine (keeps_resolveType hs _).bind fun i htype => ?_
  refine (keeps_typeEntry _ _).bind fun t ht => ?_
  refine (keeps_single _ _ _).bind fun k hk => ?_
  exact .pure (denotes_memberHandle hm htype ht hk)

/-- An accessor is found as the method that its owner names. -/
lemma keeps_resolveAccessor {id owner : MemberId} {m : Member} {role : AccessorRole} {h : Handle}
    (hm : s.program.member? id = some m) (hkind : m.kind = .accessor owner role)
    (hh : Denotes s (.member owner) h) :
    Keeps (HandlesDenote s) (resolveAccessor s id owner role h) (Denotes s (.member id)) := by
  refine (Keeps.known _).bind fun o _ => ?_
  refine (keeps_typeEntry _ _).bind fun t ht => ?_
  cases hk : accessorIndex? t h role with
  | none => exact (Keeps.known _).bind fun _ _ => .throw _
  | some k =>
    have hinside := hs.accessors t (List.mem_of_getElem? ht)
    exact .pure (.accessor hm hkind hh ht hk (lt_of_accessorIndex? hinside hk))

/-- The chain of owners is followed as far as the depth allows. -/
lemma keeps_resolveMemberWithin (depth : Nat) (id : MemberId) :
    Keeps (HandlesDenote s) (resolveMemberWithin s depth id) (Denotes s (.member id)) := by
  induction depth generalizing id with
  | zero => exact .throw _
  | succ depth ih =>
    refine Keeps.cached ((Keeps.known _).bind fun m hm => ?_)
    split
    · rename_i owner role hkind
      exact (ih owner).bind fun h hh => keeps_resolveAccessor hs hm hkind hh
    · exact keeps_resolveDeclared hs hm

/-- Resolution yields handles that stand for their entities and leaves only such handles behind. -/
theorem keeps_resolve (e : Entity) :
    Keeps (HandlesDenote s) (resolve s e) (Denotes s e) := by
  cases e with
  | type id => exact (keeps_resolveType hs id).bind fun i hi => .pure hi
  | member id => exact keeps_resolveMemberWithin hs _ id

end Resolve

end Resolution

end ScriptCompiler
