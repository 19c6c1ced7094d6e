import Mathlib.Logic.Relation
import ScriptCompiler.Proofs.Program.Growth
import ScriptCompiler.Resolution.Resolver

/-!
# Handles that were found before

`Covers` says exactly which handles a cache holds: those of the entities that were asked for and
resolve without a cache.  Resolving an entity asks for its declaring type and for its owner as well,
and what was found on the way stays even if the entity itself is not found.

With a cache that covers what was asked for, an entity resolves as with the empty cache, and the
cache covers it from then on, with everything that it asks for (`finds_resolve`).
-/

namespace ScriptCompiler.Resolution

open Metadata Relation

/-! ## Entities that an entity asks for -/

/-- A member asks for its declaring type, and an accessor for its owner. -/
inductive Refers (p : Program) : Entity → Entity → Prop
  | declaring {id : MemberId} {m : Member} :
      p.member? id = some m → Refers p (.member id) (.type m.declaringType)
  | owner {id owner : MemberId} {m : Member} {role : AccessorRole} :
      p.member? id = some m → m.kind = .accessor owner role → Refers p (.member id) (.member owner)

/-- The entities that one asks for, directly or through others, and the entity itself. -/
abbrev Reaches (p : Program) : Entity → Entity → Prop :=
  ReflTransGen (Refers p)

variable {p : Program} {e : Entity} {id : MemberId}

/-- A type asks for nothing else. -/
lemma reaches_type_iff {id : TypeId} : Reaches p (.type id) e ↔ e = .type id := by
  constructor
  · intro h
    rcases h.cases_head with rfl | ⟨e', hstep, -⟩
    · rfl
    · cases hstep
  · rintro rfl
    exact .refl

/-- A member outside the program asks for nothing else. -/
lemma reaches_unknown_iff (hid : p.member? id = none) :
    Reaches p (.member id) e ↔ e = .member id := by
  constructor
  · intro h
    rcases h.cases_head with rfl | ⟨e', hstep, -⟩
    · rfl
    · cases hstep with
      | declaring hm => simp [hid] at hm
      | owner hm => simp [hid] at hm
  · rintro rfl
    exact .refl

/-- A member that is not an accessor asks for its declaring type. -/
lemma reaches_declared_iff {m : Member} (hm : p.member? id = some m)
    (hkind : ∀ owner role, m.kind ≠ .accessor owner role) :
    Reaches p (.member id) e ↔ e = .member id ∨ Reaches p (.type m.declaringType) e := by
  constructor
  · intro h
    rcases h.cases_head with rfl | ⟨e', hstep, hrest⟩
    · exact .inl rfl
    · right
      cases hstep with
      | declaring hm' =>
        obtain rfl := Option.some.inj (hm.symm.trans hm')
        exact hrest
      | owner hm' hk =>
        obtain rfl := Option.some.inj (hm.symm.trans hm')
        exact absurd hk (hkind _ _)
  · rintro (rfl | h)
    · exact .refl
    · exact .head (.declaring hm) h

/-- An accessor asks for its owner, and through it for its declaring type. -/
lemma reaches_accessor_iff (hp : p.Linked) {id owner : MemberId} {m : Member} {role : AccessorRole}
    (hm : p.member? id = some m) (hkind : m.kind = .accessor owner role) :
    Reaches p (.member id) e ↔ e = .member id ∨ Reaches p (.member owner) e := by
  obtain ⟨o, ho, hsame⟩ := hp.beside hm hkind
  constructor
  · intro h
    rcases h.cases_head with rfl | ⟨e', hstep, hrest⟩
    · exact .inl rfl
    · right
      cases hstep with
      | declaring hm' =>
        obtain rfl := Option.some.inj (hm.symm.trans hm')
        rw [← hsame] at hrest
        exact .head (.declaring ho) hrest
      | owner hm' hk =>
        obtain rfl := Option.some.inj (hm.symm.trans hm')
        rw [hkind] at hk
        obtain ⟨rfl, -⟩ := MemberKind.accessor.inj hk
        exact hrest
  · rintro (rfl | h)
    · exact .refl
    · exact .head (.owner hm hkind) h

/-- Members behind types, in order of creation. -/
def rank : Entity → Nat
  | .type _ => 0
  | .member id => id.index + 1

/-- An entity asks for earlier ones only. -/
lemma rank_le_of_reaches (hp : p.Linked) {e e' : Entity} (h : Reaches p e e') :
    rank e' ≤ rank e := by
  induction h with
  | refl => exact Nat.le_refl _
  | tail _ hstep ih =>
    refine Nat.le_trans ?_ ih
    cases hstep with
    | declaring => exact Nat.zero_le _
    | owner hm hk =>
      have hlt := hp.owner_lt hm hk
      simp only [rank]
      omega

/-! ## Answers without a cache -/

section Answers

variable {ε σ α β : Type}

/-- An answer together with the cache behind it. -/
def answer (x : Except ε α) (cache : σ) : EStateM.Result ε σ α :=
  match x with
  | .ok a => .ok a cache
  | .error e => .error e cache

/-- The answer of a step, without the cache that it leaves. -/
def outcome (step : EStateM ε σ α) (cache : σ) : Except ε α :=
  match step cache with
  | .ok a _ => .ok a
  | .error e _ => .error e

lemma outcome_of_eq_answer {step : EStateM ε σ α} {x : Except ε α} {cache after : σ}
    (h : step cache = answer x after) : outcome step cache = x := by
  unfold outcome
  rw [h]
  cases x <;> rfl

/-- Every step leaves some cache behind its answer. -/
lemma exists_eq_answer (step : EStateM ε σ α) (cache : σ) :
    ∃ after, step cache = answer (outcome step cache) after := by
  unfold outcome
  cases step cache with
  | ok a after => exact ⟨after, rfl⟩
  | error e after => exact ⟨after, rfl⟩

/-- A step that succeeds is followed by the next one. -/
lemma bind_of_ok {step : EStateM ε σ α} {next : α → EStateM ε σ β} {a : α} {cache after : σ}
    (h : step cache = answer (.ok a) after) : (step >>= next) cache = next a after := by
  change EStateM.bind step next cache = _
  rw [EStateM.bind, h]
  rfl

/-- A step that fails is the last one. -/
lemma bind_of_error {step : EStateM ε σ α} {next : α → EStateM ε σ β} {e : ε} {cache after : σ}
    (h : step cache = answer (.error e) after) :
    (step >>= next) cache = answer (.error e) after := by
  change EStateM.bind step next cache = _
  rw [EStateM.bind, h]
  rfl

end Answers

/-- The answer for an entity if nothing was found before. -/
def fresh (s : Setting) (e : Entity) : Except ResolveError Handle :=
  outcome (resolve s e) []

/-- The step neither reads nor changes the cache. -/
def Idle {α : Type} (step : Resolve α) : Prop :=
  ∀ cache, step cache = answer (outcome step []) cache

/-- What follows a step that is done, if it needs no cache. -/
lemma bind_of_idle {α β : Type} {step : Resolve α} {next : α → Resolve β}
    {x : Except ResolveError α} {cache after : HandleCache} (h : step cache = answer x after)
    (hnext : ∀ a, Idle (next a)) :
    (step >>= next) cache = answer (x >>= fun a => outcome (next a) []) after := by
  cases x with
  | error e => exact bind_of_error h
  | ok a => exact (bind_of_ok h).trans (hnext a after)

namespace Idle

variable {α β : Type}

lemma of_answer {step : Resolve α} {x : Except ResolveError α}
    (h : ∀ cache, step cache = answer x cache) : Idle step := by
  intro cache
  rw [outcome_of_eq_answer (h []), h cache]

lemma pure (a : α) : Idle (Pure.pure a) :=
  of_answer (x := .ok a) fun _ => rfl

lemma throw (e : ResolveError) : Idle (MonadExcept.throw e : Resolve α) :=
  of_answer (x := .error e) fun _ => rfl

lemma bind {step : Resolve α} {next : α → Resolve β} (h : Idle step)
    (hnext : ∀ a, Idle (next a)) : Idle (step >>= next) :=
  of_answer fun cache => bind_of_idle (h cache) hnext

lemma known (o : Option α) : Idle (Resolution.known o) := by
  cases o with
  | none => exact throw _
  | some a => exact pure a

end Idle

variable {s : Setting} {cache : HandleCache}

/-- The entry of a type is read off the catalog. -/
lemma idle_typeEntry (i : Nat) (id : TypeId) : Idle (typeEntry s i id) := by
  unfold typeEntry
  split
  · exact .pure _
  · exact (Idle.known _).bind fun _ => .throw _

/-- Choosing a candidate needs no cache. -/
lemma idle_single (id : MemberId) (m : Member) (found : List Nat) : Idle (single s id m found) := by
  unfold single
  split
  · exact .pure _
  · exact (Idle.known _).bind fun _ => (Idle.known _).bind fun _ => .throw _
  · exact (Idle.known _).bind fun _ => .throw _

/-- Once its owner is found, an accessor is found without a cache. -/
lemma idle_resolveAccessor (id owner : MemberId) (role : AccessorRole) (h : Handle) :
    Idle (resolveAccessor s id owner role h) := by
  unfold resolveAccessor
  refine (Idle.known _).bind fun m => (idle_typeEntry _ _).bind fun t => ?_
  split
  · exact .pure _
  · exact (Idle.known _).bind fun _ => .throw _

/-! ## What a cache holds -/

/-- The cache holds the handles of the entities that were asked for and resolve on their own, each
one once. -/
structure Covers (s : Setting) (asked : Entity → Prop) (cache : HandleCache) : Prop where
  lookup_iff : ∀ e h, cache.lookup e = some h ↔ asked e ∧ fresh s e = .ok h
  nodup : (cache.map Prod.fst).Nodup
  closed : ∀ {e e'}, asked e → Reaches s.program e e' → asked e'

/-- With a cache that covers what was asked for, the step answers `x` and leaves a cache that
covers the entities of `found` as well. -/
def Finds {α : Type} (s : Setting) (step : Resolve α) (x : Except ResolveError α)
    (found : Entity → Prop) : Prop :=
  ∀ asked cache, Covers s asked cache →
    ∃ after, step cache = answer x after ∧ Covers s (fun e => asked e ∨ found e) after

/-- The empty cache covers nothing. -/
lemma covers_nil : Covers s (fun _ => False) [] where
  lookup_iff := by simp
  nodup := List.nodup_nil
  closed := fun h _ => h

/-- The same entities, described in another way. -/
lemma Covers.congr {asked asked' : Entity → Prop} (h : Covers s asked cache)
    (hiff : ∀ e, asked' e ↔ asked e) : Covers s asked' cache := by
  obtain rfl : asked' = asked := funext fun e => propext (hiff e)
  exact h

/-- An entity that does not resolve leaves no trace. -/
lemma Covers.add_failing {asked : Entity → Prop} (h : Covers s asked cache)
    (hfresh : ∀ h, fresh s e ≠ .ok h) (hclosed : ∀ e', Reaches s.program e e' → e' = e ∨ asked e') :
    Covers s (fun e' => asked e' ∨ e' = e) cache where
  lookup_iff := by
    intro e' h'
    rw [h.lookup_iff]
    constructor
    · rintro ⟨hasked, hok⟩
      exact ⟨.inl hasked, hok⟩
    · rintro ⟨hasked | rfl, hok⟩
      · exact ⟨hasked, hok⟩
      · exact absurd hok (hfresh h')
  nodup := h.nodup
  closed := by
    rintro a b (ha | rfl) hab
    · exact .inl (h.closed ha hab)
    · exact (hclosed b hab).symm

/-- A handle that is added belongs to an entity more. -/
theorem Covers.add {asked : Entity → Prop} {h : Handle} (hcovers : Covers s asked cache)
    (hfresh : fresh s e = .ok h) (hnew : ¬ asked e)
    (hclosed : ∀ e', Reaches s.program e e' → e' = e ∨ asked e') :
    Covers s (fun e' => asked e' ∨ e' = e) ((e, h) :: cache) where
  lookup_iff := by
    intro e' h'
    rw [List.lookup_cons]
    by_cases heq : e' = e
    · subst heq
      simp only [beq_self_eq_true, Option.some.injEq, or_true, true_and, hfresh, Except.ok.injEq]
    · have hbeq : (e' == e) = false := by simpa using heq
      simp only [hbeq, hcovers.lookup_iff, heq, or_false]
  nodup := by
    rw [List.map_cons, List.nodup_cons]
    refine ⟨fun hmem => ?_, hcovers.nodup⟩
    obtain ⟨⟨e', h'⟩, hpair, rfl⟩ := List.mem_map.mp hmem
    have hsome : (cache.lookup e').isSome := by
      rw [List.lookup_isSome_iff]
      exact ⟨_, hpair, by simp⟩
    obtain ⟨found, hfound⟩ := Option.isSome_iff_exists.mp hsome
    exact hnew ((hcovers.lookup_iff e' found).mp hfound).1
  closed := by
    rintro a b (ha | rfl) hab
    · exact .inl (hcovers.closed ha hab)
    · exact (hclosed b hab).symm

variable {α β : Type}

/-- A step that leaves the cache alone finds no entity. -/
lemma Idle.finds {step : Resolve α} (h : Idle step) :
    Finds s step (outcome step []) fun _ => False := by
  intro asked cache hcovers
  exact ⟨cache, h cache, hcovers.congr fun e => by simp⟩

/-- A step goes on without the cache. -/
lemma Finds.bind {step : Resolve α} {next : α → Resolve β} {x : Except ResolveError α}
    {found : Entity → Prop} (h : Finds s step x found) (hnext : ∀ a, Idle (next a)) :
    Finds s (step >>= next) (x >>= fun a => outcome (next a) []) found := by
  intro asked cache hcovers
  obtain ⟨after, hstep, hafter⟩ := h asked cache hcovers
  exact ⟨after, bind_of_idle hstep hnext, hafter⟩

/-- The answer of the empty cache. -/
lemma Finds.outcome_nil {step : Resolve α} {x : Except ResolveError α} {found : Entity → Prop}
    (h : Finds s step x found) : outcome step [] = x := by
  obtain ⟨after, hstep, -⟩ := h _ [] covers_nil
  exact outcome_of_eq_answer hstep

/-- A handle that was found before is not computed again. -/
lemma cached_of_some {h : Handle} (hlookup : cache.lookup e = some h) (compute : Resolve Handle) :
    cached e compute cache = answer (.ok h) cache := by
  unfold cached
  change EStateM.bind (fun c => .ok c c) _ cache = _
  simp only [EStateM.bind, hlookup]
  rfl

/-- A handle that was not found before is computed and remembered. -/
lemma cached_of_none (hlookup : cache.lookup e = none) (compute : Resolve Handle) :
    cached e compute cache = (compute >>= fun h => do modify ((e, h) :: ·); return h) cache := by
  unfold cached
  change EStateM.bind (fun c => .ok c c) _ cache = _
  simp only [EStateM.bind, hlookup]

/-- Nothing is found in the empty cache. -/
lemma outcome_cached_nil (e : Entity) (compute : Resolve Handle) :
    outcome (cached e compute) [] = outcome compute [] := by
  obtain ⟨after, hrun⟩ := exists_eq_answer compute []
  have hnil : ([] : HandleCache).lookup e = none := rfl
  have hcached := cached_of_none hnil compute
  cases hx : outcome compute [] with
  | error error =>
    rw [hx] at hrun
    exact outcome_of_eq_answer (hcached.trans (bind_of_error hrun))
  | ok h =>
    rw [hx] at hrun
    have hstored : cached e compute [] = answer (.ok h) ((e, h) :: after) :=
      hcached.trans (bind_of_ok hrun)
    exact outcome_of_eq_answer hstored

/-- The handle of an entity is computed from what the entity asks for. -/
structure Computes (s : Setting) (e : Entity) (compute : Resolve Handle)
    (x : Except ResolveError Handle) (below : Entity → Prop) : Prop where
  finds : Finds s compute x below
  reaches_iff : ∀ e', Reaches s.program e e' ↔ e' = e ∨ below e'
  not_below : ¬ below e

/-- The answer for an entity may be remembered.  Either it was found before, and then so was
everything that it asks for, or it is computed, and then what was found on the way is kept even if
the entity itself is not found. -/
lemma finds_cached {compute : Resolve Handle} {x : Except ResolveError Handle}
    {below : Entity → Prop} (h : Computes s e compute x below) (hfresh : fresh s e = x) :
    Finds s (cached e compute) x (Reaches s.program e) := by
  intro asked cache hcovers
  cases hlookup : cache.lookup e with
  | some handle =>
    obtain ⟨hasked, hok⟩ := (hcovers.lookup_iff e handle).mp hlookup
    obtain rfl : x = .ok handle := hfresh.symm.trans hok
    refine ⟨cache, cached_of_some hlookup compute, hcovers.congr fun e' => ⟨?_, .inl⟩⟩
    rintro (h' | h')
    · exact h'
    · exact hcovers.closed hasked h'
  | none =>
    obtain ⟨after, hrun, hafter⟩ := h.finds asked cache hcovers
    have hclosed : ∀ e', Reaches s.program e e' → e' = e ∨ asked e' ∨ below e' := by
      intro e' he'
      rcases (h.reaches_iff e').mp he' with h' | h'
      · exact .inl h'
      · exact .inr (.inr h')
    have hall : ∀ e', (asked e' ∨ Reaches s.program e e') ↔ (asked e' ∨ below e') ∨ e' = e := by
      intro e'
      rw [h.reaches_iff, or_assoc]
      exact or_congr_right or_comm
    rw [cached_of_none hlookup]
    cases x with
    | error error =>
      refine ⟨after, bind_of_error hrun, (hafter.add_failing ?_ hclosed).congr hall⟩
      intro handle hok
      rw [hfresh] at hok
      cases hok
    | ok handle =>
      refine ⟨(e, handle) :: after, bind_of_ok hrun, (hafter.add hfresh ?_ hclosed).congr hall⟩
      rintro (hasked | hself)
      · have hfound := (hcovers.lookup_iff e handle).mpr ⟨hasked, hfresh⟩
        rw [hlookup] at hfound
        cases hfound
      · exact h.not_below hself

/-! ## Resolving with a cache -/

/-- The step that looks a type up by its name. -/
def findType (s : Setting) (id : TypeId) : Resolve Handle := do
  let name ← known (s.program.fullName? id)
  match s.catalog.findType? name with
  | some i => return .type i
  | none => throw (.typeNotFound name)

lemma idle_findType (id : TypeId) : Idle (findType s id) := by
  unfold findType
  refine (Idle.known _).bind fun name => ?_
  split
  · exact .pure _
  · exact .throw _

/-- A type is found as a type. -/
lemma outcome_findType (id : TypeId) :
    (outcome (findType s id) [] >>= fun h => .ok (.type h.owner)) = outcome (findType s id) [] := by
  unfold findType
  cases s.program.fullName? id with
  | none => rfl
  | some name =>
    simp only [known, pure_bind]
    cases s.catalog.findType? name with
    | none => rfl
    | some i => rfl

lemma resolve_type_eq (id : TypeId) :
    resolve s (.type id) = cached (.type id) (findType s id) >>= fun h => return .type h.owner := by
  simp only [resolve, resolveType, bind_assoc, pure_bind]
  rfl

lemma resolveType_eq (id : TypeId) :
    resolveType s id = resolve s (.type id) >>= fun h => return h.owner := by
  simp only [resolve, bind_assoc, pure_bind, bind_pure, Handle.owner]

/-- A type is looked up by its name alone. -/
lemma computes_findType (id : TypeId) :
    Computes s (.type id) (findType s id) (outcome (findType s id) []) fun _ => False where
  finds := (idle_findType id).finds
  reaches_iff := fun e' => by rw [reaches_type_iff, or_false]
  not_below := not_false

/-- Without a cache a type is found by its name. -/
lemma fresh_type (id : TypeId) : fresh s (.type id) = outcome (findType s id) [] := by
  obtain ⟨after, hrun⟩ := exists_eq_answer (cached (.type id) (findType s id)) []
  rw [outcome_cached_nil] at hrun
  rw [fresh, resolve_type_eq, ← outcome_findType]
  exact outcome_of_eq_answer (bind_of_idle hrun fun h => .pure (Handle.type h.owner))

/-- A type is resolved as without a cache. -/
lemma finds_resolve_type (id : TypeId) :
    Finds s (resolve s (.type id)) (fresh s (.type id)) (Reaches s.program (.type id)) := by
  have hstep := finds_cached (computes_findType id) (fresh_type (s := s) id)
  have hfinds := hstep.bind fun h => .pure (Handle.type h.owner)
  rw [← resolve_type_eq] at hfinds
  rw [fresh_type, ← outcome_findType]
  exact hfinds

/-- A member that is not an accessor is found through its declaring type. -/
lemma finds_resolveDeclared (id : MemberId) (m : Member) :
    Finds s (resolveDeclared s id m) (outcome (resolveDeclared s id m) [])
      (Reaches s.program (.type m.declaringType)) := by
  have hcontinue : ∀ i, Idle (do
      let t ← typeEntry s i m.declaringType
      return memberHandle m.kind i (← single s id m (candidates t m))) := fun i =>
    (idle_typeEntry _ _).bind fun t => (idle_single _ _ _).bind fun k => .pure _
  have hfinds := (finds_resolve_type (s := s) m.declaringType).bind fun h => hcontinue h.owner
  have heq : resolveDeclared s id m = resolve s (.type m.declaringType) >>= fun h => do
      let t ← typeEntry s h.owner m.declaringType
      return memberHandle m.kind h.owner (← single s id m (candidates t m)) := by
    unfold resolveDeclared
    rw [resolveType_eq, bind_assoc]
    simp only [pure_bind]
  rw [← heq] at hfinds
  rw [hfinds.outcome_nil]
  exact hfinds

/-- What is computed for a member of the program, with the length that its chain of owners may
have. -/
def findMember (s : Setting) (id : MemberId) (m : Member) (depth : Nat) : Resolve Handle :=
  match m.kind with
  | .accessor owner role => do
    let h ← resolveMemberWithin s depth owner
    resolveAccessor s id owner role h
  | _ => resolveDeclared s id m

lemma resolveMemberWithin_succ {m : Member} (hm : s.program.member? id = some m) (depth : Nat) :
    resolveMemberWithin s (depth + 1) id = cached (.member id) (findMember s id m depth) := by
  rw [resolveMemberWithin]
  simp only [hm, known, pure_bind]
  rfl

/-- A member is computed from its owner or from its declaring type.  The length that is allowed for
the chain of owners does not matter, once owners are found within it. -/
lemma exists_computes_findMember (hp : s.program.Linked) {m : Member}
    (hm : s.program.member? id = some m)
    (howner : ∀ owner, owner.index < id.index → (s.program.member? owner).isSome →
      ∀ depth, owner.index < depth → Finds s (resolveMemberWithin s depth owner)
        (fresh s (.member owner)) (Reaches s.program (.member owner))) :
    ∃ x below, ∀ depth, id.index ≤ depth →
      Computes s (.member id) (findMember s id m depth) x below := by
  by_cases hkind : ∃ owner role, m.kind = .accessor owner role
  · obtain ⟨owner, role, hkind⟩ := hkind
    have hlt := hp.owner_lt hm hkind
    refine ⟨fresh s (.member owner) >>= fun h => outcome (resolveAccessor s id owner role h) [],
      Reaches s.program (.member owner), fun depth hdepth => ⟨?_, ?_, ?_⟩⟩
    · unfold findMember
      rw [hkind]
      exact (howner owner hlt (hp.isSome_owner hm hkind) depth (by omega)).bind
        fun h => idle_resolveAccessor id owner role h
    · exact fun e' => reaches_accessor_iff hp hm hkind
    · intro hself
      have hrank := rank_le_of_reaches hp hself
      simp only [rank] at hrank
      omega
  · have hplain : ∀ owner role, m.kind ≠ .accessor owner role := by
      intro owner role h
      exact hkind ⟨owner, role, h⟩
    refine ⟨outcome (resolveDeclared s id m) [], Reaches s.program (.type m.declaringType),
      fun depth _ => ⟨?_, fun e' => reaches_declared_iff hm hplain, ?_⟩⟩
    · unfold findMember
      split
      · rename_i owner role h
        exact absurd h (hplain owner role)
      · exact finds_resolveDeclared id m
    · rw [reaches_type_iff]
      exact fun h => by cases h

/-- A member of the program is resolved as without a cache, for every length of the chain of owners
that is allowed to be long enough. -/
lemma finds_resolveMemberWithin (hp : s.program.Linked) (hid : (s.program.member? id).isSome)
    {depth : Nat} (hdepth : id.index < depth) :
    Finds s (resolveMemberWithin s depth id) (fresh s (.member id))
      (Reaches s.program (.member id)) := by
  -- by the position of the member: an owner comes before its accessors
  induction hk : id.index using Nat.strongRecOn generalizing id depth with
  | ind k ih =>
    subst hk
    obtain ⟨m, hm⟩ := Option.isSome_iff_exists.mp hid
    have hlength : id.index < s.program.members.length := (List.getElem?_eq_some_iff.mp hm).1
    obtain ⟨x, below, hcomputes⟩ := exists_computes_findMember hp hm
      fun owner hlt howner depth hdepth => ih owner.index hlt howner hdepth rfl
    have hfresh : fresh s (.member id) = x := by
      obtain ⟨n, hn⟩ : ∃ n, s.program.members.length = n + 1 :=
        ⟨s.program.members.length - 1, by omega⟩
      rw [fresh, resolve, hn, resolveMemberWithin_succ hm, outcome_cached_nil]
      exact (hcomputes n (by omega)).finds.outcome_nil
    obtain ⟨n, rfl⟩ : ∃ n, depth = n + 1 := ⟨depth - 1, by omega⟩
    rw [resolveMemberWithin_succ hm, hfresh]
    exact finds_cached (hcomputes n (by omega)) hfresh

/-- A member outside the program is not found, and nothing is asked for on the way. -/
lemma fresh_unknown (hid : s.program.member? id = none) :
    fresh s (.member id) = .error .unknownEntity := by
  rw [fresh, resolve]
  cases s.program.members.length with
  | zero => rfl
  | succ n =>
    rw [resolveMemberWithin, outcome_cached_nil]
    simp only [hid]
    rfl

/-- A member outside the program is not found, whatever the cache holds. -/
lemma finds_resolve_unknown (hid : s.program.member? id = none) :
    Finds s (resolve s (.member id)) (fresh s (.member id)) (Reaches s.program (.member id)) := by
  have hreaches : ∀ e', Reaches s.program (.member id) e' ↔ e' = .member id :=
    fun e' => reaches_unknown_iff hid
  have hfails : ∀ h, fresh s (.member id) ≠ .ok h := by
    intro h hok
    rw [fresh_unknown hid] at hok
    cases hok
  intro asked cache hcovers
  have hlookup : cache.lookup (.member id) = none := by
    cases hfound : cache.lookup (.member id) with
    | none => rfl
    | some h => exact absurd ((hcovers.lookup_iff _ _).mp hfound).2 (hfails h)
  have hadded := hcovers.add_failing hfails fun e' h => .inl ((hreaches e').mp h)
  refine ⟨cache, ?_, hadded.congr fun e' => by rw [hreaches e']⟩
  rw [fresh_unknown hid, resolve]
  cases s.program.members.length with
  | zero => rfl
  | succ n =>
    rw [resolveMemberWithin, cached_of_none hlookup]
    simp only [hid]
    rfl

/-- An entity is resolved as without a cache, and what it asks for is covered from then on. -/
theorem finds_resolve (hp : s.program.Linked) (e : Entity) :
    Finds s (resolve s e) (fresh s e) (Reaches s.program e) := by
  cases e with
  | type id => exact finds_resolve_type id
  | member id =>
    cases hm : s.program.member? id with
    | some m =>
      exact finds_resolveMemberWithin hp (by rw [hm]; rfl) (List.getElem?_eq_some_iff.mp hm).1
    | none => exact finds_resolve_unknown hm

end ScriptCompiler.Resolution
