import ScriptCompiler.Proofs.Resolution.Denotation
import ScriptCompiler.Proofs.Session.Caching

/-!
# Handles and attributes of a session are real

The answers of a session over metadata that was read from bytes are `Genuine`: a handle stands for
the entity that was asked for and addresses an entry of the tables, and attributes are those of such
an entry, unless a failure is answered or reported.  So there are no attributes because the entry
has none, never because a handle points outside the tables.
-/

namespace ScriptCompiler

open Attribute (Record)
open Resolution

/-! ## Reading attributes through handles -/

/-- The records are those of the entry that stands for the entity. -/
def ReadFrom (s : Setting) (e : Entity) (records : List Record) : Prop :=
  ∃ h table, Denotes s e h ∧ s.catalog.Holds h table ∧
    List.Forall₂ (fun a r => Record.ofEntry a = .ok r) table records

/-- What is remembered stands for its entity, or was read from what does. -/
structure CacheDenotes (s : Setting) (c : Cache) : Prop where
  handles : HandlesDenote s c.handles
  records : ∀ e records, c.records.lookup e = some records → ReadFrom s e records

lemma cacheDenotes_empty {s : Setting} : CacheDenotes s {} where
  handles := handlesDenote_nil
  records := by simp

variable {s : Setting}

/-- A query by resolution leaves the remembered attributes alone. -/
lemma keeps_ofResolve {α : Type} {step : Resolve α} {post : α → Prop}
    (h : Keeps (HandlesDenote s) step post) :
    Keeps (CacheDenotes s) (Query.ofResolve step) post := by
  intro c hc
  obtain ⟨handles, hhandles, hrun⟩ := h c.handles hc.handles
  refine ⟨{ c with handles }, ⟨hhandles, hc.records⟩, ?_⟩
  unfold Query.ofResolve
  rcases hrun with ⟨a, hrun, ha⟩ | ⟨error, hrun⟩
  · rw [hrun]
    exact .inl ⟨a, rfl, ha⟩
  · rw [hrun]
    exact .inr ⟨_, rfl⟩

/-- Attributes are read from the entry that stands for the entity, now or before. -/
lemma keeps_attributes (hs : s.catalog.Sound) (e : Entity) :
    Keeps (CacheDenotes s) (Query.attributes s e) (ReadFrom s e) := by
  intro c hc
  have hget : (get : Query Cache) c = answer (.ok c) c := rfl
  unfold Query.attributes
  rw [bind_of_ok hget]
  cases hlookup : c.records.lookup e with
  | some records => exact ⟨c, hc, .inl ⟨records, rfl, hc.records e records hlookup⟩⟩
  | none =>
    have hquery := keeps_ofResolve (keeps_resolve hs e)
    obtain ⟨between, hbetween, ⟨h, hrun, hdenotes⟩ | ⟨error, hrun⟩⟩ := hquery c hc
    · dsimp only
      rw [bind_of_ok hrun]
      cases hmap : (s.catalog.attributes h).mapM Record.ofEntry with
      | error error => exact ⟨between, hbetween, .inr ⟨_, rfl⟩⟩
      | ok records =>
        have hread : ReadFrom s e records :=
          ⟨h, _, hdenotes, hdenotes.holds, forall₂_of_mapM_eq_ok hmap⟩
        exact ⟨{ between with records := (e, records) :: between.records },
          ⟨hbetween.handles, forall_lookup_cons hread hbetween.records⟩,
          .inl ⟨records, rfl, hread⟩⟩
    · exact ⟨between, hbetween, .inr ⟨error, bind_of_error hrun⟩⟩

/-- The records decide whether an attribute is there. -/
lemma keeps_hasAttribute (hs : s.catalog.Sound) (e : Entity) (typeName : String) :
    Keeps (CacheDenotes s) (Query.hasAttribute s e typeName) fun found =>
      ∃ records, ReadFrom s e records ∧ found = records.any (·.typeName == typeName) :=
  (keeps_attributes hs e).bind fun records hread => .pure ⟨records, hread, rfl⟩

namespace Session

/-! ## Answers -/

/-- What a call may answer.  Failures are not restricted, nor are answers with a message. -/
def Genuine (s : Session) : Call → Answer → Prop
  | .resolve e, .handle x => ∀ h, x = .ok h →
      Denotes s.setting e h ∧ s.catalog.Holds h (s.catalog.attributes h)
  | .resolveType id, .position x => ∀ i, x = .ok i →
      Denotes s.setting (.type id) (.type i) ∧
        s.catalog.Holds (.type i) (s.catalog.attributes (.type i))
  | .attributes e, .records x => ∀ records, x = .ok records → ReadFrom s.setting e records
  | .hasAttribute e typeName, .found x => ∀ found, x = .ok found →
      ∃ records, ReadFrom s.setting e records ∧ found = records.any (·.typeName == typeName)
  | .reportAttributes e r, .reportedRecords x => ∀ records, x = some (records, r) →
      ReadFrom s.setting e records
  | .reportHasAttribute e typeName r, .reportedFound x => ∀ found, x = some (found, r) →
      ∃ records, ReadFrom s.setting e records ∧ found = records.any (·.typeName == typeName)
  | _, _ => False

/-- A step that keeps the invariant, as an answer with the cache behind it. -/
lemma settle_of_keeps {ε σ α : Type} {invariant : σ → Prop} {step : EStateM ε σ α}
    {post : α → Prop} (h : Keeps invariant step post) {c : σ} (hc : invariant c) :
    (∀ a, (settle (step c)).1 = .ok a → post a) ∧ invariant (settle (step c)).2 := by
  obtain ⟨after, hafter, ⟨a, hrun, ha⟩ | ⟨e, hrun⟩⟩ := h c hc
  · rw [hrun, settle_answer]
    refine ⟨fun b hb => ?_, hafter⟩
    obtain rfl := Except.ok.inj hb
    exact ha
  · rw [hrun, settle_answer]
    exact ⟨(fun b hb => by cases hb), hafter⟩

variable {s : Session} {c : Cache}

/-- A call with a reporter answers with what was read, or adds a message. -/
lemma attributes_readFrom (hs : s.catalog.Sound) (hc : CacheDenotes s.setting c) (e : Entity)
    (r : Reporter) {records : List Record} {after : Cache} {r' : Reporter}
    (h : s.attributes e c r = some (records, after, r')) :
    CacheDenotes s.setting after ∧ (r' = r → ReadFrom s.setting e records) := by
  obtain ⟨between, hbetween, ⟨found, hrun, hread⟩ | ⟨error, hrun⟩⟩ := keeps_attributes hs e c hc
  · unfold Session.attributes at h
    rw [hrun] at h
    cases h
    exact ⟨hbetween, fun _ => hread⟩
  · unfold Session.attributes at h
    rw [hrun] at h
    obtain ⟨described, -, heq⟩ := Option.bind_eq_some_iff.mp h
    cases heq
    refine ⟨hbetween, fun hsame => ?_⟩
    -- the message is there, so the reporter has changed
    obtain ⟨m, hadded⟩ : ∃ m,
        r.internalErrorFrom error.chain (some ("reading attributes of " ++ described)) =
          { r with messages := r.messages ++ [m] } := ⟨_, rfl⟩
    have hlength := congrArg (·.messages.length) (hadded.symm.trans hsame)
    simp at hlength

/-- A call is answered genuinely, and what it remembers stands for its entity. -/
lemma genuine_perform (hs : s.catalog.Sound) (hc : CacheDenotes s.setting c) (call : Call) :
    Genuine s call (s.perform call c).1 ∧ CacheDenotes s.setting (s.perform call c).2 := by
  cases call with
  | resolve e =>
    obtain ⟨hanswer, hafter⟩ := settle_of_keeps (keeps_resolve hs e) hc.handles
    exact ⟨fun h hh => ⟨hanswer h hh, (hanswer h hh).holds⟩, hafter, hc.records⟩
  | resolveType id =>
    obtain ⟨hanswer, hafter⟩ := settle_of_keeps (keeps_resolveType hs id) hc.handles
    exact ⟨fun i hi => ⟨hanswer i hi, (hanswer i hi).holds⟩, hafter, hc.records⟩
  | attributes e => exact settle_of_keeps (keeps_attributes hs e) hc
  | hasAttribute e typeName => exact settle_of_keeps (keeps_hasAttribute hs e typeName) hc
  | reportAttributes e r =>
    cases hrun : s.attributes e c r with
    | none =>
      simp only [perform, hrun]
      exact ⟨(fun records h => by cases h), hc⟩
    | some answered =>
      obtain ⟨records, after, r'⟩ := answered
      obtain ⟨hafter, hread⟩ := attributes_readFrom hs hc e r hrun
      simp only [perform, hrun]
      refine ⟨fun found h => ?_, hafter⟩
      cases h
      exact hread rfl
  | reportHasAttribute e typeName r =>
    cases hrun : s.attributes e c r with
    | none =>
      simp only [perform, hasAttribute, hrun]
      exact ⟨(fun records h => by cases h), hc⟩
    | some answered =>
      obtain ⟨records, after, r'⟩ := answered
      obtain ⟨hafter, hread⟩ := attributes_readFrom hs hc e r hrun
      simp only [perform, hasAttribute, hrun]
      refine ⟨fun found h => ?_, hafter⟩
      cases h
      exact ⟨records, hread rfl, rfl⟩

/-- Calls are answered genuinely, whatever they remember of each other. -/
lemma genuine_performAll (hs : s.catalog.Sound) (hc : CacheDenotes s.setting c)
    (calls : List Call) : List.Forall₂ (Genuine s) calls (s.performAll calls c).1 := by
  induction calls generalizing c with
  | nil => exact .nil
  | cons call calls ih =>
    obtain ⟨hanswer, hafter⟩ := genuine_perform hs hc call
    exact .cons hanswer (ih hafter)

/-- Over metadata that was read from bytes, whatever the program, each call of a sequence is
answered genuinely.  A handle stands for the entity that was asked for and addresses an entry, and
attributes were read from one. -/
theorem performAll_real (s : Session) {data : Binary.Bytes}
    (hs : Metadata.Catalog.ofBytes data = .ok s.catalog) (calls : List Call) :
    List.Forall₂ (Genuine s) calls (s.performAll calls {}).1 :=
  genuine_performAll (Metadata.Catalog.sound_of_ofBytes hs) cacheDenotes_empty calls

/-- A program with the type, the property and the getter of metadata that was read from bytes. -/
def sampleLibrary : Session where
  program :=
    { types := [{ name := "lib", members := [⟨0⟩, ⟨1⟩] }]
      members :=
        [{ name := "lib", kind := .property, declaringType := ⟨0⟩, returnType := .void },
          { name := "get_lib", kind := .accessor ⟨0⟩ .getter, declaringType := ⟨0⟩,
            returnType := .void }]
      names := [("lib", ⟨0⟩)] }
  catalog := .ofModule Metadata.Module.untidySample

/-- The calls of the sample: the getter finds its property on the way. -/
def libraryCalls : List Call :=
  [.resolve (.member ⟨1⟩), .resolve (.member ⟨0⟩), .attributes (.member ⟨1⟩), .resolveType ⟨0⟩,
    .reportAttributes (.type ⟨0⟩) {}]

theorem performAll_real_sampleLibrary :
    Metadata.Catalog.ofBytes
      (Metadata.Module.withHeader Binary.sha256 Metadata.Module.untidyPayload) =
        .ok sampleLibrary.catalog ∧
    (sampleLibrary.performAll libraryCalls {}).1 =
      [.handle (.ok (.method 0 0)), .handle (.ok (.property 0 0)), .records (.ok []),
        .position (.ok 0), .reportedRecords (some ([], {}))] ∧
    List.Forall₂ (Genuine sampleLibrary) libraryCalls
      (sampleLibrary.performAll libraryCalls {}).1 := by
  have hread : Metadata.Catalog.ofBytes
      (Metadata.Module.withHeader Binary.sha256 Metadata.Module.untidyPayload) =
        .ok sampleLibrary.catalog := by
    rw [Metadata.Catalog.ofBytes, Metadata.Module.decode_untidyPayload]
    rfl
  exact ⟨hread, rfl, performAll_real sampleLibrary hread libraryCalls⟩

end Session

end ScriptCompiler
