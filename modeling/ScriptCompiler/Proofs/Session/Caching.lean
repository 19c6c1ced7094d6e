import Mathlib.Data.List.Forall2
import ScriptCompiler.Proofs.Program.Arenas
import ScriptCompiler.Proofs.Resolution.Caching
import ScriptCompiler.Proofs.Resolution.Lookup
import ScriptCompiler.Session.Basic

/-!
# What was found before changes no answer

A session remembers the handles and the attributes that it has found.  Its cache is `Consistent` if
the handles cover what was asked for and every list of attributes is the one that is read without
a cache.  A call keeps that and has the answer of the empty cache (`perform_eq`), and so does a
sequence of calls, whether they fail or not (`performAll_eq`).

`Reading` says what the attributes of an entity are: the records of its table in order, or the
reason why there are none.
-/

namespace ScriptCompiler

open Attribute (Record BlobError)
open Resolution

/-! ## Reading attributes without a cache -/

/-- What reading the attributes of an entity comes to. -/
inductive Reading (s : Setting) (e : Entity) : Except AttributeError (List Record) → Prop
  /-- The entity resolves, and its table decodes entry by entry. -/
  | records {h : Metadata.Handle} {records : List Record} :
      fresh s e = .ok h →
      List.Forall₂ (fun a r => Record.ofEntry a = .ok r) (s.catalog.attributes h) records →
      Reading s e (.ok records)
  /-- The entity does not resolve. -/
  | unresolved {error : ResolveError} : fresh s e = .error error → Reading s e (.error (.resolve error))
  /-- The first entry that cannot be decoded. -/
  | undecoded {h : Metadata.Handle} {before after : List Metadata.AttributeEntry}
      {a : Metadata.AttributeEntry} {error : BlobError} :
      fresh s e = .ok h → s.catalog.attributes h = before ++ a :: after →
      (∀ b ∈ before, ∃ r, Record.ofEntry b = .ok r) → Record.ofEntry a = .error error →
      Reading s e (.error (.blob error))

/-- The attributes of an entity if nothing was found before. -/
def freshRecords (s : Setting) (e : Entity) : Except AttributeError (List Record) :=
  match fresh s e with
  | .error error => .error (.resolve error)
  | .ok h =>
    match (s.catalog.attributes h).mapM Record.ofEntry with
    | .ok records => .ok records
    | .error error => .error (.blob error)

/-- A table that decodes is decoded entry by entry. -/
lemma forall₂_of_mapM_eq_ok {table : List Metadata.AttributeEntry} {records : List Record}
    (h : table.mapM Record.ofEntry = .ok records) :
    List.Forall₂ (fun a r => Record.ofEntry a = .ok r) table records := by
  induction table generalizing records with
  | nil =>
    rw [List.mapM_nil] at h
    cases h
    exact .nil
  | cons a table ih =>
    rw [List.mapM_cons] at h
    cases ha : Record.ofEntry a with
    | error error =>
      rw [ha] at h
      cases h
    | ok r =>
      cases hrest : table.mapM Record.ofEntry with
      | error error =>
        rw [ha, hrest] at h
        cases h
      | ok rest =>
        rw [ha, hrest] at h
        cases h
        exact .cons ha (ih hrest)

/-- A table that does not decode has a first entry that does not. -/
lemma exists_of_mapM_eq_error {table : List Metadata.AttributeEntry} {error : BlobError}
    (h : table.mapM Record.ofEntry = .error error) :
    ∃ before a after, table = before ++ a :: after ∧
      (∀ b ∈ before, ∃ r, Record.ofEntry b = .ok r) ∧ Record.ofEntry a = .error error := by
  induction table with
  | nil =>
    rw [List.mapM_nil] at h
    cases h
  | cons a table ih =>
    rw [List.mapM_cons] at h
    cases ha : Record.ofEntry a with
    | error first =>
      rw [ha] at h
      cases h
      exact ⟨[], a, table, rfl, by simp, ha⟩
    | ok r =>
      cases hrest : table.mapM Record.ofEntry with
      | ok rest =>
        rw [ha, hrest] at h
        cases h
      | error later =>
        rw [ha, hrest] at h
        cases h
        obtain ⟨before, b, after, rfl, hbefore, hb⟩ := ih hrest
        refine ⟨a :: before, b, after, rfl, ?_, hb⟩
        rintro x (_ | ⟨_, hx⟩)
        · exact ⟨r, ha⟩
        · exact hbefore x hx

/-- Without a cache the attributes are read as they should be. -/
lemma reading_freshRecords (s : Setting) (e : Entity) : Reading s e (freshRecords s e) := by
  unfold freshRecords
  cases hfresh : fresh s e with
  | error error => exact .unresolved hfresh
  | ok h =>
    cases hmap : (s.catalog.attributes h).mapM Record.ofEntry with
    | ok records => simpa only [hmap] using Reading.records hfresh (forall₂_of_mapM_eq_ok hmap)
    | error error =>
      obtain ⟨before, a, after, htable, hbefore, ha⟩ := exists_of_mapM_eq_error hmap
      simpa only [hmap] using Reading.undecoded hfresh htable hbefore ha

/-! ## Caches of a session -/

/-- The handles cover what was asked for, and remembered attributes are those read without a
cache. -/
structure Consistent (s : Setting) (asked : Entity → Prop) (c : Cache) : Prop where
  handles : Covers s asked c.handles
  records : ∀ e records, c.records.lookup e = some records →
    asked e ∧ freshRecords s e = .ok records

variable {s : Setting} {asked : Entity → Prop} {c : Cache}

/-- The empty cache is consistent. -/
lemma consistent_empty : Consistent s (fun _ => False) {} where
  handles := covers_nil
  records := by simp

/-- The same entities, described in another way. -/
lemma Consistent.congr {asked' : Entity → Prop} (h : Consistent s asked c)
    (hiff : ∀ e, asked' e ↔ asked e) : Consistent s asked' c := by
  obtain rfl : asked' = asked := funext fun e => propext (hiff e)
  exact h

/-- New handles leave the remembered attributes alone. -/
lemma Consistent.withHandles {more : Entity → Prop} {handles : HandleCache}
    (h : Consistent s asked c) (hhandles : Covers s (fun e => asked e ∨ more e) handles) :
    Consistent s (fun e => asked e ∨ more e) { c with handles } where
  handles := hhandles
  records := by
    intro e records hlookup
    obtain ⟨hasked, hfresh⟩ := h.records e records hlookup
    exact ⟨.inl hasked, hfresh⟩

/-- Attributes that were read may be remembered. -/
lemma Consistent.remember {e : Entity} {records : List Record} (h : Consistent s asked c)
    (hasked : asked e) (hfresh : freshRecords s e = .ok records) :
    Consistent s asked { c with records := (e, records) :: c.records } where
  handles := h.handles
  records := forall_lookup_cons ⟨hasked, hfresh⟩ h.records

/-- Resolution as a query answers as without a cache. -/
lemma Consistent.ofResolve (hp : s.program.Linked) (h : Consistent s asked c) (e : Entity) :
    ∃ handles, Query.ofResolve (resolve s e) c =
        answer ((fresh s e).mapError .resolve) { c with handles } ∧
      resolve s e c.handles = answer (fresh s e) handles ∧
      Consistent s (fun e' => asked e' ∨ Reaches s.program e e') { c with handles } := by
  obtain ⟨handles, hrun, hcovers⟩ := finds_resolve hp e asked c.handles h.handles
  refine ⟨handles, ?_, hrun, h.withHandles hcovers⟩
  unfold Query.ofResolve
  rw [hrun]
  cases fresh s e <;> rfl

/-- Attributes are read as without a cache. -/
lemma Consistent.attributes (hp : s.program.Linked) (h : Consistent s asked c) (e : Entity) :
    ∃ after, Query.attributes s e c = answer (freshRecords s e) after ∧
      Consistent s (fun e' => asked e' ∨ Reaches s.program e e') after := by
  have hget : (get : Query Cache) c = answer (.ok c) c := rfl
  unfold Query.attributes
  rw [bind_of_ok hget]
  cases hlookup : c.records.lookup e with
  | some records =>
    obtain ⟨hasked, hfresh⟩ := h.records e records hlookup
    rw [hfresh]
    refine ⟨c, rfl, h.withHandles (h.handles.congr fun e' => ⟨?_, .inl⟩)⟩
    rintro (h' | h')
    · exact h'
    · exact h.handles.closed hasked h'
  | none =>
    obtain ⟨handles, hquery, -, hafter⟩ := h.ofResolve hp e
    cases hfresh : fresh s e with
    | error error =>
      rw [hfresh] at hquery
      refine ⟨_, ?_, hafter⟩
      simpa only [freshRecords, hfresh] using bind_of_error hquery
    | ok handle =>
      rw [hfresh] at hquery
      simp only [bind_of_ok hquery]
      cases hmap : (s.catalog.attributes handle).mapM Record.ofEntry with
      | error error =>
        refine ⟨_, ?_, hafter⟩
        simp only [freshRecords, hfresh, hmap]
        rfl
      | ok records =>
        have hrecords : freshRecords s e = .ok records := by
          simp only [freshRecords, hfresh, hmap]
        refine ⟨_, ?_, hafter.remember (.inr .refl) hrecords⟩
        rw [hrecords]
        rfl

/-- An entity without a description is not in the program. -/
lemma not_has_of_describe?_eq_none {p : Program} (hp : p.Linked) {e : Entity}
    (h : p.describe? e = none) : ¬ Has p e := by
  intro hhas
  cases e with
  | type id =>
    have hsome := hp.isSome_fullName? hhas
    rw [show p.fullName? id = none from h] at hsome
    cases hsome
  | member id =>
    have hsome := hp.isSome_describe?_member hhas
    rw [h] at hsome
    cases hsome

/-- An entity without a description does not resolve, and asks for nothing else. -/
lemma fresh_of_describe?_eq_none (hp : s.program.Linked) {e : Entity}
    (h : s.program.describe? e = none) :
    (∀ handle, fresh s e ≠ .ok handle) ∧ ∀ e', Reaches s.program e e' ↔ e' = e := by
  cases e with
  | type id =>
    refine ⟨fun handle hok => ?_, fun e' => reaches_type_iff⟩
    rw [fresh_type, findType, show s.program.fullName? id = none from h] at hok
    cases hok
  | member id =>
    have hm : s.program.member? id = none := by
      cases hm : s.program.member? id with
      | none => rfl
      | some m => exact absurd (by rw [Has, hm]; rfl) (not_has_of_describe?_eq_none hp h)
    refine ⟨fun handle hok => ?_, fun e' => reaches_unknown_iff hm⟩
    rw [fresh_unknown hm] at hok
    cases hok

/-! ## Sequences of calls -/

/-- A question to a session, with the reporter that it may add to. -/
inductive Call where
  | resolve (e : Entity)
  | resolveType (id : TypeId)
  | attributes (e : Entity)
  | hasAttribute (e : Entity) (typeName : String)
  | reportAttributes (e : Entity) (r : Reporter)
  | reportHasAttribute (e : Entity) (typeName : String) (r : Reporter)

/-- The entity that a call asks for. -/
def Call.entity : Call → Entity
  | resolve e | attributes e | hasAttribute e _ => e
  | reportAttributes e _ | reportHasAttribute e _ _ => e
  | resolveType id => .type id

/-- The answer to a call.  Where a reporter was given, the answer is `none` if the call asks for
something outside the program and fails. -/
inductive Answer where
  | handle (x : Except ResolveError Metadata.Handle)
  | position (x : Except ResolveError Nat)
  | records (x : Except AttributeError (List Record))
  | found (x : Except AttributeError Bool)
  | reportedRecords (x : Option (List Record × Reporter))
  | reportedFound (x : Option (Bool × Reporter))

/-- The answer of a step and the cache behind it. -/
def settle {ε σ α : Type} : EStateM.Result ε σ α → Except ε α × σ
  | .ok a c => (.ok a, c)
  | .error e c => (.error e, c)

@[simp] lemma settle_answer {ε σ α : Type} (x : Except ε α) (c : σ) :
    settle (answer x c) = (x, c) := by
  cases x <;> rfl

namespace Session

/-- Answers one call. -/
def perform (s : Session) (call : Call) (c : Cache) : Answer × Cache :=
  match call with
  | .resolve e =>
    let (x, handles) := settle (Resolution.resolve s.setting e c.handles)
    (.handle x, { c with handles })
  | .resolveType id =>
    let (x, handles) := settle (Resolution.resolveType s.setting id c.handles)
    (.position x, { c with handles })
  | .attributes e =>
    let (x, c) := settle (Query.attributes s.setting e c)
    (.records x, c)
  | .hasAttribute e typeName =>
    let (x, c) := settle (Query.hasAttribute s.setting e typeName c)
    (.found x, c)
  | .reportAttributes e r =>
    match s.attributes e c r with
    | some (records, c, r) => (.reportedRecords (some (records, r)), c)
    | none => (.reportedRecords none, c)
  | .reportHasAttribute e typeName r =>
    match s.hasAttribute e typeName c r with
    | some (found, c, r) => (.reportedFound (some (found, r)), c)
    | none => (.reportedFound none, c)

/-- Answers calls one after the other. -/
def performAll (s : Session) : List Call → Cache → List Answer × Cache
  | [], c => ([], c)
  | call :: calls, c =>
    let (x, c) := s.perform call c
    let (xs, c) := s.performAll calls c
    (x :: xs, c)

/-- The answer to a call if nothing was found before. -/
def freshAnswer (s : Session) (call : Call) : Answer :=
  (s.perform call {}).1

/-- The right answers to a call.  A failure to read attributes for a reporter leaves none of them
and adds one message, which reports a defect. -/
inductive Right (s : Session) : Call → Answer → Prop
  | resolve (e : Entity) : Right s (.resolve e) (.handle (fresh s.setting e))
  | resolveType (id : TypeId) :
      Right s (.resolveType id) (.position ((fresh s.setting (.type id)).map (·.owner)))
  | attributes {e : Entity} {x : Except AttributeError (List Record)} :
      Reading s.setting e x → Right s (.attributes e) (.records x)
  | hasAttribute {e : Entity} {typeName : String} {x : Except AttributeError (List Record)} :
      Reading s.setting e x →
      Right s (.hasAttribute e typeName) (.found (x.map (·.any (·.typeName == typeName))))
  | reportAttributes {e : Entity} {r : Reporter} {records : List Record} :
      Reading s.setting e (.ok records) →
      Right s (.reportAttributes e r) (.reportedRecords (some (records, r)))
  | reportHasAttribute {e : Entity} {typeName : String} {r : Reporter} {records : List Record} :
      Reading s.setting e (.ok records) →
      Right s (.reportHasAttribute e typeName r)
        (.reportedFound (some (records.any (·.typeName == typeName), r)))
  | reportFailure {e : Entity} {r : Reporter} {error : AttributeError} {m : Reported} :
      Reading s.setting e (.error error) → m.isInternalError →
      Right s (.reportAttributes e r)
        (.reportedRecords (some ([], { r with messages := r.messages ++ [m] })))
  | reportHasFailure {e : Entity} {typeName : String} {r : Reporter} {error : AttributeError}
      {m : Reported} :
      Reading s.setting e (.error error) → m.isInternalError →
      Right s (.reportHasAttribute e typeName r)
        (.reportedFound (some (false, { r with messages := r.messages ++ [m] })))
  | outside {e : Entity} {r : Reporter} :
      ¬ Has s.program e → Right s (.reportAttributes e r) (.reportedRecords none)
  | outsideHas {e : Entity} {typeName : String} {r : Reporter} :
      ¬ Has s.program e → Right s (.reportHasAttribute e typeName r) (.reportedFound none)

variable {s : Session} {asked : Entity → Prop} {c : Cache}

/-- What a call with a reporter yields without a cache. -/
def freshReport (s : Session) (e : Entity) (r : Reporter) : Option (List Record × Reporter) :=
  match freshRecords s.setting e with
  | .ok records => some (records, r)
  | .error error => (s.program.describe? e).map fun described =>
      ([], r.internalErrorFrom error.chain (some ("reading attributes of " ++ described)))

/-- Attributes for a reporter are those without a cache.  If there is no answer, the cache that was
there stays consistent. -/
lemma attributes_eq (hp : s.program.Linked) (h : Consistent s.setting asked c) (e : Entity)
    (r : Reporter) :
    ∃ after, s.attributes e c r = (s.freshReport e r).map (fun (records, r) => (records, after, r)) ∧
      Consistent s.setting (fun e' => asked e' ∨ Reaches s.program e e')
        (if (s.freshReport e r).isSome then after else c) := by
  obtain ⟨after, hrun, hafter⟩ := h.attributes hp e
  refine ⟨after, ?_, ?_⟩
  · unfold Session.attributes freshReport
    rw [hrun]
    cases freshRecords s.setting e with
    | ok records => rfl
    | error error =>
      simp only [answer]
      cases s.program.describe? e <;> rfl
  · split
    · exact hafter
    · rename_i hnone
      have hdescribe : s.program.describe? e = none := by
        unfold freshReport at hnone
        cases hfresh : freshRecords s.setting e with
        | ok records => simp [hfresh] at hnone
        | error error => simpa [hfresh] using hnone
      obtain ⟨hfails, hreaches⟩ := fresh_of_describe?_eq_none (s := s.setting) hp hdescribe
      have hadded := h.handles.add_failing hfails fun e' h' => .inl ((hreaches e').mp h')
      exact h.withHandles (hadded.congr fun e' => or_congr_right (hreaches e'))

/-- The right answer to a call with a reporter. -/
lemma right_freshReport (hp : s.program.Linked) (e : Entity) (r : Reporter) :
    Right s (.reportAttributes e r) (.reportedRecords (s.freshReport e r)) ∧
      ∀ typeName, Right s (.reportHasAttribute e typeName r) (.reportedFound
        ((s.freshReport e r).map fun (records, r) => (records.any (·.typeName == typeName), r))) := by
  have hreading := reading_freshRecords s.setting e
  unfold freshReport
  cases hfresh : freshRecords s.setting e with
  | ok records =>
    rw [hfresh] at hreading
    exact ⟨.reportAttributes hreading, fun _ => .reportHasAttribute hreading⟩
  | error error =>
    rw [hfresh] at hreading
    cases hdescribe : s.program.describe? e with
    | none =>
      have hnot := not_has_of_describe?_eq_none hp hdescribe
      exact ⟨.outside hnot, fun _ => .outsideHas hnot⟩
    | some described =>
      exact ⟨.reportFailure hreading (by rfl), fun _ => .reportHasFailure hreading (by rfl)⟩

/-- A call is answered rightly, whatever a consistent cache holds, and the cache stays
consistent. -/
lemma exists_perform_eq (hp : s.program.Linked) (call : Call) :
    ∃ x, Right s call x ∧ ∀ asked c, Consistent s.setting asked c →
      ∃ after, s.perform call c = (x, after) ∧
        Consistent s.setting (fun e => asked e ∨ Reaches s.program call.entity e) after := by
  cases call with
  | resolve e =>
    refine ⟨_, .resolve e, fun asked c h => ?_⟩
    obtain ⟨handles, -, hrun, hafter⟩ := h.ofResolve hp e
    exact ⟨_, by simp only [perform, hrun, settle_answer], hafter⟩
  | resolveType id =>
    refine ⟨_, .resolveType id, fun asked c h => ?_⟩
    obtain ⟨handles, -, hrun, hafter⟩ := h.ofResolve hp (.type id)
    have htype : resolveType s.setting id c.handles =
        answer ((fresh s.setting (.type id)).map (·.owner)) handles := by
      rw [resolveType_eq, bind_of_idle hrun fun h => .pure h.owner]
      cases fresh s.setting (.type id) <;> rfl
    exact ⟨_, by simp only [perform, htype, settle_answer], hafter⟩
  | attributes e =>
    refine ⟨_, .attributes (reading_freshRecords s.setting e), fun asked c h => ?_⟩
    obtain ⟨after, hrun, hafter⟩ := h.attributes hp e
    exact ⟨after, by simp only [perform, hrun, settle_answer], hafter⟩
  | hasAttribute e typeName =>
    refine ⟨_, .hasAttribute (reading_freshRecords s.setting e), fun asked c h => ?_⟩
    obtain ⟨after, hrun, hafter⟩ := h.attributes hp e
    have hhas : Query.hasAttribute s.setting e typeName c =
        answer ((freshRecords s.setting e).map (·.any (·.typeName == typeName))) after := by
      unfold Query.hasAttribute
      cases hfresh : freshRecords s.setting e with
      | ok records =>
        rw [hfresh] at hrun
        exact bind_of_ok hrun
      | error error =>
        rw [hfresh] at hrun
        exact bind_of_error hrun
    exact ⟨after, by simp only [perform, hhas, settle_answer], hafter⟩
  | reportAttributes e r =>
    refine ⟨_, (right_freshReport hp e r).1, fun asked c h => ?_⟩
    obtain ⟨after, hrun, hafter⟩ := attributes_eq hp h e r
    refine ⟨_, ?_, hafter⟩
    simp only [perform, hrun]
    cases s.freshReport e r <;> rfl
  | reportHasAttribute e typeName r =>
    refine ⟨_, (right_freshReport hp e r).2 typeName, fun asked c h => ?_⟩
    obtain ⟨after, hrun, hafter⟩ := attributes_eq hp h e r
    refine ⟨_, ?_, hafter⟩
    simp only [perform, hasAttribute, hrun]
    cases s.freshReport e r <;> rfl

/-- The answer without a cache is right. -/
lemma right_freshAnswer (hp : s.program.Linked) (call : Call) : Right s call (s.freshAnswer call) := by
  obtain ⟨x, hright, hperform⟩ := exists_perform_eq hp call
  obtain ⟨after, hrun, -⟩ := hperform _ {} consistent_empty
  rw [freshAnswer, hrun]
  exact hright

/-- A call has the answer of the empty cache. -/
theorem perform_eq (hp : s.program.Linked) (call : Call) (h : Consistent s.setting asked c) :
    ∃ after, s.perform call c = (s.freshAnswer call, after) ∧
      Consistent s.setting (fun e => asked e ∨ Reaches s.program call.entity e) after := by
  obtain ⟨x, -, hperform⟩ := exists_perform_eq hp call
  obtain ⟨first, hfirst, -⟩ := hperform _ {} consistent_empty
  obtain ⟨after, hrun, hafter⟩ := hperform asked c h
  exact ⟨after, by rw [hrun, freshAnswer, hfirst], hafter⟩

/-- Calls have the answers of the empty cache, one by one, and what they ask for is covered. -/
theorem performAll_eq (hp : s.program.Linked) (calls : List Call)
    (h : Consistent s.setting asked c) :
    ∃ after, s.performAll calls c = (calls.map s.freshAnswer, after) ∧
      Consistent s.setting
        (fun e => asked e ∨ ∃ call ∈ calls, Reaches s.program call.entity e) after := by
  induction calls generalizing asked c with
  | nil => exact ⟨c, rfl, h.congr fun e => by simp⟩
  | cons call calls ih =>
    obtain ⟨between, hcall, hbetween⟩ := perform_eq hp call h
    obtain ⟨after, hrest, hafter⟩ := ih hbetween
    refine ⟨after, by simp only [performAll, hcall, hrest, List.map_cons], ?_⟩
    exact hafter.congr fun e => by rw [List.exists_mem_cons_iff, or_assoc]

/-- Calls are answered as if each one were the first.  The answers are right, and in the end the
cache holds, once each, exactly the entities that resolve on their own among those that the calls
asked for. -/
theorem performAll_transparent (s : Session) (hp : s.program.Built) (calls : List Call) :
    (s.performAll calls {}).1 = calls.map (fun call => (s.perform call {}).1) ∧
    (∀ call, Right s call (s.perform call {}).1) ∧
    (∀ e h, (s.performAll calls {}).2.handles.lookup e = some h ↔
      (∃ call ∈ calls, Reaches s.program call.entity e) ∧ fresh s.setting e = .ok h) ∧
    ((s.performAll calls {}).2.handles.map Prod.fst).Nodup := by
  have hlinked := hp.linked
  obtain ⟨after, hrun, hafter⟩ := performAll_eq hlinked calls (consistent_empty (s := s.setting))
  have hcovers := (hafter.congr fun e => (false_or _).symm.to_iff).handles
  rw [hrun]
  exact ⟨rfl, right_freshAnswer hlinked, hcovers.lookup_iff, hcovers.nodup⟩

/-- A type with a property whose getter the metadata lacks.  The property has two attributes, and
the type one whose arguments cannot be read. -/
def sampleBox : Session where
  program :=
    { types := [{ name := "Box", members := [⟨0⟩, ⟨1⟩] }]
      members :=
        [{ name := "Size", kind := .property, declaringType := ⟨0⟩, returnType := .void },
          { name := "get_Size", kind := .accessor ⟨0⟩ .getter, declaringType := ⟨0⟩,
            returnType := .void }]
      names := [("Box", ⟨0⟩)] }
  catalog := .ofModule
    { types :=
        [{ name := "Box"
           properties := [{ name := "Size", type := .ofType .void,
                            attributes := [⟨level, [1, 0, 7, 0, 0, 0, 0, 0]⟩, ⟨marker, [1, 0, 0, 0]⟩] }]
           attributes := [⟨marker, [2, 0]⟩] }] }
where
  level : Metadata.MemberSignature :=
    ⟨.simple "Level", ".ctor", [.simple "System.Int32"], .simple "System.Void"⟩
  marker : Metadata.MemberSignature :=
    ⟨.simple "Marker", ".ctor", [], .simple "System.Void"⟩

/-- The sample grew from the empty program. -/
lemma built_sampleBox : sampleBox.program.Built :=
  (Program.grown_of_addAll?
    [.type { name := "Box" },
      .member { name := "Size", kind := .property, declaringType := ⟨0⟩, returnType := .void },
      .accessor ⟨0⟩ .getter]
    (by decide) (show _ = some (_, _) from rfl)).built

/-- The calls of the sample: the getter fails, the property that owns it does not. -/
def sampleCalls : List Call :=
  [.reportAttributes (.member ⟨1⟩) {}, .resolve (.member ⟨1⟩), .attributes (.member ⟨0⟩),
    .resolveType ⟨0⟩, .attributes (.type ⟨0⟩), .hasAttribute (.member ⟨0⟩) "Marker",
    .resolve (.member ⟨7⟩)]

theorem performAll_transparent_sampleBox :
    sampleBox.program.Built ∧
    (sampleBox.performAll sampleCalls {}).1 =
      sampleCalls.map (fun call => (sampleBox.perform call {}).1) ∧
    (∀ call, Right sampleBox call (sampleBox.perform call {}).1) ∧
    (∀ e h, (sampleBox.performAll sampleCalls {}).2.handles.lookup e = some h ↔
      (∃ call ∈ sampleCalls, Reaches sampleBox.program call.entity e) ∧
        fresh sampleBox.setting e = .ok h) ∧
    ((sampleBox.performAll sampleCalls {}).2.handles.map Prod.fst).Nodup ∧
    (sampleBox.perform (.attributes (.member ⟨0⟩)) {}).1 =
      .records (.ok [⟨"Level", sampleBox.level, { fixed := [.integer .i32 7] }⟩,
        ⟨"Marker", sampleBox.marker, {}⟩]) ∧
    (sampleBox.perform (.hasAttribute (.member ⟨0⟩) "Marker") {}).1 = .found (.ok true) ∧
    (sampleBox.perform (.attributes (.type ⟨0⟩)) {}).1 =
      .records (.error (.blob (.invalidProlog 2))) := by
  obtain ⟨hanswers, hright, hhandles, hnodup⟩ :=
    performAll_transparent sampleBox built_sampleBox sampleCalls
  exact ⟨built_sampleBox, hanswers, hright, hhandles, hnodup, rfl, rfl, rfl⟩

end Session

end ScriptCompiler
