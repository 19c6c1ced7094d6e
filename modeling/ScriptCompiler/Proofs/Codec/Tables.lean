import ScriptCompiler.Metadata.Table
import ScriptCompiler.Proofs.Codec.Pooling

/-!
# Signatures and tables read back

An entry whose texts and lists fit behind 32-bit lengths is read back from where it was written.
Every record is a row of pieces, and its reader reads the pieces in the same order, so each record
comes with two statements: it is read back if its pieces are, and it is read back if it fits.
Signatures nest; a level of a signature takes a byte for its tag, which pays for the level of the
reader.

A type is only read if its accessors are inside its methods, and then none of their positions is
the number that stands for a missing one.
-/

namespace ScriptCompiler.Metadata

open Binary
open Binary.Decoder

/-! ## What 32-bit lengths can hold -/

/-- The text fits behind a length. -/
def TextFits (s : String) : Prop :=
  IsLength (utf8 s).length

instance (s : String) : Decidable (TextFits s) :=
  inferInstanceAs (Decidable (IsLength (utf8 s).length))

/-- The list and all its items fit. -/
def ListFits {α : Type} (fits : α → Prop) (items : List α) : Prop :=
  IsLength items.length ∧ ∀ a ∈ items, fits a

instance {α : Type} (fits : α → Prop) [DecidablePred fits] (items : List α) :
    Decidable (ListFits fits items) :=
  inferInstanceAs (Decidable (_ ∧ _))

mutual

/-- All names and lists of arguments inside the signature fit. -/
def Signature.Fits : Signature → Prop
  | .named name arguments => TextFits name ∧ IsLength arguments.length ∧ Signature.AllFit arguments
  | .array element _ => element.Fits
  | .byRef target | .pointer target => target.Fits
  | .typeParameter _ | .methodParameter _ => True

/-- All signatures of a list fit. -/
def Signature.AllFit : List Signature → Prop
  | [] => True
  | s :: rest => s.Fits ∧ Signature.AllFit rest

end

mutual

instance Signature.decidableFits : (s : Signature) → Decidable s.Fits
  | .named _ arguments =>
    @instDecidableAnd _ _ _ (@instDecidableAnd _ _ _ (decidableAllFit arguments))
  | .array element _ => element.decidableFits
  | .byRef target | .pointer target => target.decidableFits
  | .typeParameter _ | .methodParameter _ => isTrue trivial

instance Signature.decidableAllFit : (ss : List Signature) → Decidable (Signature.AllFit ss)
  | [] => isTrue trivial
  | s :: rest => @instDecidableAnd _ _ s.decidableFits (decidableAllFit rest)

end

namespace Signature

/-! ## Signatures -/

lemma emitSequence_eq (ss : List Signature) : emitSequence ss = emitAll emit ss := by
  induction ss with
  | nil => rfl
  | cons s ss ih => rw [emitSequence, emitAll, ih]

lemma emit_named (name : String) (arguments : List Signature) :
    emit (.named name arguments) = do
      return 0x01 :: (← emitAll id [emitName name, emitList emit arguments]) := by
  simp [emit, emitAll, emitList, emitSequence_eq]

/-- The signature is read back with every bound that is at least the number of its bytes. -/
abbrev WritesWithin (allowed : String → Prop) (s : Signature) : Prop :=
  Writes allowed s.emit (fun q n => decodeWithin q n) s

variable {allowed : String → Prop}

/-- A level of a signature: behind its tag, what is read with one level less. -/
lemma writes_level {tag : UInt8} {e : Emit Bytes} {s : Signature}
    {read : Pool → ℕ → Decoder DecodeError Signature} (he : Writes allowed e read s)
    (htag : ∀ q n bs, Reads (read q n) bs s → Reads (decodeWithin q (n + 1)) (tag :: bs) s) :
    Writes allowed (do return tag :: (← e)) (fun q n => decodeWithin q n) s where
  grows := he.grows
  texts := he.texts
  tidy := he.tidy
  indexed := he.indexed
  reads := by
    intro p q n hp hpq hq hn
    change (tag :: (e.run p).1).length ≤ n at hn
    obtain ⟨n, rfl⟩ : ∃ m, n = m + 1 :=
      Nat.exists_eq_add_one.2 (Nat.lt_of_lt_of_le (Nat.succ_pos _) hn)
    exact htag q n _ (he.reads hp hpq hq (Nat.le_of_succ_le_succ hn))

/-- Named types are written with their arguments. -/
lemma writes_named {name : String} {arguments : List Signature} (hname : allowed name)
    (hlength : IsCount arguments.length) (harguments : ∀ s ∈ arguments, s.WritesWithin allowed) :
    (Signature.named name arguments).WritesWithin allowed := by
  unfold WritesWithin
  rw [emit_named]
  have hparts : Writes allowed (emitAll id [emitName name, emitList emit arguments])
      (fun q n => do return named (← decodeName q) (← counted (decodeWithin q n)))
      (.named name arguments) :=
    (writes_name hname).cons ((writes_list hlength harguments).cons writes_nil)
  exact writes_level hparts fun _ _ _ h => reads_position fun _ => (reads_word8 0x01).bind h

lemma writes_typeParameter (index : UInt32) : (typeParameter index).WritesWithin allowed :=
  writes_level (writes_bytes ((reads_word32 index).map Signature.typeParameter))
    fun _ _ _ h => reads_position fun _ => (reads_word8 0x02).bind h

lemma writes_methodParameter (index : UInt32) : (methodParameter index).WritesWithin allowed :=
  writes_level (writes_bytes ((reads_word32 index).map Signature.methodParameter))
    fun _ _ _ h => reads_position fun _ => (reads_word8 0x03).bind h

/-- Arrays are written with their element. -/
lemma writes_array {element : Signature} (rank : UInt32) (helement : element.WritesWithin allowed) :
    (array element rank).WritesWithin allowed := by
  have hparts : Writes allowed (do return (← element.emit) ++ (← pure (Binary.word32 rank)))
      (fun q n => do return array (← decodeWithin q n) (← Decoder.word32)) (.array element rank) :=
    helement.append (writes_bytes ((reads_word32 rank).map (array element)))
  exact writes_level hparts fun _ _ _ h => reads_position fun _ => (reads_word8 0x04).bind h

lemma writes_byRef {target : Signature} (htarget : target.WritesWithin allowed) :
    (byRef target).WritesWithin allowed :=
  writes_level (htarget.map Signature.byRef)
    fun _ _ _ h => reads_position fun _ => (reads_word8 0x05).bind h

lemma writes_pointer {target : Signature} (htarget : target.WritesWithin allowed) :
    (pointer target).WritesWithin allowed :=
  writes_level (htarget.map Signature.pointer)
    fun _ _ _ h => reads_position fun _ => (reads_word8 0x06).bind h

mutual

/-- Signatures that fit are written with names that fit. -/
theorem Fits.writesWithin : ∀ {s : Signature}, s.Fits → s.WritesWithin TextFits
  | .named _ _, hs => writes_named hs.1 hs.2.1.isCount (AllFit.writesWithin hs.2.2)
  | .typeParameter index, _ => writes_typeParameter index
  | .methodParameter index, _ => writes_methodParameter index
  | .array _ rank, hs => writes_array rank (Fits.writesWithin (by exact hs))
  | .byRef _, hs => writes_byRef (Fits.writesWithin (by exact hs))
  | .pointer _, hs => writes_pointer (Fits.writesWithin (by exact hs))

theorem AllFit.writesWithin : ∀ {ss : List Signature}, AllFit ss →
    ∀ s ∈ ss, s.WritesWithin TextFits
  | [], _, _, h => by cases h
  | _ :: _, hfit, _, .head _ => Fits.writesWithin hfit.1
  | _ :: _, hfit, s, .tail _ hs => AllFit.writesWithin hfit.2 s hs

end

/-- Signatures are read back. -/
lemma Fits.roundTrips {s : Signature} (hs : s.Fits) : RoundTrips TextFits emit decode s :=
  (Fits.writesWithin hs).bounded

/-- Counted signatures make the round trip. -/
lemma roundTrips_many {ss : List Signature} (hlength : IsCount ss.length)
    (hss : ∀ s ∈ ss, RoundTrips allowed emit decode s) :
    RoundTrips allowed emitMany decodeMany ss := by
  have hemit : emitMany ss = emitList emit ss := by
    rw [emitMany, emitList, emitSequence_eq]
  unfold RoundTrips
  rw [hemit]
  exact writes_list hlength hss

lemma roundTrips_of_listFits {ss : List Signature} (hss : ListFits Fits ss) :
    RoundTrips TextFits emitMany decodeMany ss :=
  roundTrips_many hss.1.isCount fun s hs => (hss.2 s hs).roundTrips

end Signature

/-! ## Entries -/

section

variable {allowed : String → Prop}

/-- The names and lists of a member signature fit. -/
def MemberSignature.Fits (m : MemberSignature) : Prop :=
  m.declaringType.Fits ∧ TextFits m.name ∧ ListFits Signature.Fits m.parameters ∧ m.returnType.Fits

instance (m : MemberSignature) : Decidable m.Fits :=
  inferInstanceAs (Decidable (_ ∧ _))

/-- So do signatures of members. -/
lemma roundTrips_memberSignature {m : MemberSignature}
    (hdeclaring : RoundTrips allowed Signature.emit Signature.decode m.declaringType)
    (hname : allowed m.name)
    (hparameters : RoundTrips allowed Signature.emitMany Signature.decodeMany m.parameters)
    (hreturn : RoundTrips allowed Signature.emit Signature.decode m.returnType) :
    RoundTrips allowed MemberSignature.emit MemberSignature.decode m := by
  have hemit : m.emit = emitAll id
      [m.declaringType.emit, emitName m.name, Signature.emitMany m.parameters,
        m.returnType.emit] := by
    simp [MemberSignature.emit, emitAll]
  unfold RoundTrips
  rw [hemit]
  exact hdeclaring.cons <| (writes_name hname).cons <| hparameters.cons <| hreturn.cons writes_nil

/-- Signatures of members that fit make it. -/
lemma MemberSignature.Fits.roundTrips {m : MemberSignature} (hm : m.Fits) :
    RoundTrips TextFits MemberSignature.emit MemberSignature.decode m := by
  obtain ⟨hdeclaring, hname, hparameters, hreturn⟩ := hm
  exact roundTrips_memberSignature hdeclaring.roundTrips hname
    (Signature.roundTrips_of_listFits hparameters) hreturn.roundTrips

/-- The constructor and the bytes of an attribute fit. -/
def AttributeEntry.Fits (a : AttributeEntry) : Prop :=
  a.constructor.Fits ∧ IsLength a.blob.length

instance (a : AttributeEntry) : Decidable a.Fits :=
  inferInstanceAs (Decidable (_ ∧ _))

/-- So do attributes. -/
lemma roundTrips_attribute {a : AttributeEntry}
    (hconstructor : RoundTrips allowed MemberSignature.emit MemberSignature.decode a.constructor)
    (hblob : IsCount a.blob.length) :
    RoundTrips allowed AttributeEntry.emit AttributeEntry.decode a := by
  have hemit : a.emit = emitAll id [a.constructor.emit, pure (Binary.blob a.blob)] := by
    simp [AttributeEntry.emit, emitAll]
  unfold RoundTrips
  rw [hemit]
  exact hconstructor.cons <| (writes_bytes (reads_blob hblob)).cons writes_nil

/-- Attributes that fit make the round trip. -/
lemma roundTrips_attributes {attributes : List AttributeEntry}
    (h : ListFits AttributeEntry.Fits attributes) :
    RoundTrips TextFits emitAttributes decodeAttributes attributes :=
  writes_list h.1.isCount fun a ha =>
    roundTrips_attribute (h.2 a ha).1.roundTrips (h.2 a ha).2.isCount

/-- The name, type and attributes of a field fit. -/
def FieldEntry.Fits (f : FieldEntry) : Prop :=
  TextFits f.name ∧ f.type.Fits ∧ ListFits AttributeEntry.Fits f.attributes

instance (f : FieldEntry) : Decidable f.Fits :=
  inferInstanceAs (Decidable (_ ∧ _))

/-- So do fields. -/
lemma roundTrips_field {f : FieldEntry} (hname : allowed f.name)
    (htype : RoundTrips allowed Signature.emit Signature.decode f.type)
    (hattributes : RoundTrips allowed emitAttributes decodeAttributes f.attributes) :
    RoundTrips allowed FieldEntry.emit FieldEntry.decode f := by
  have hemit : f.emit = emitAll id
      [emitName f.name, f.type.emit, pure (Binary.word32 f.flags),
        emitAttributes f.attributes] := by
    simp [FieldEntry.emit, emitAll]
  unfold RoundTrips
  rw [hemit]
  exact (writes_name hname).cons <| htype.cons <| (writes_bytes (reads_word32 _)).cons <|
    hattributes.cons writes_nil

lemma FieldEntry.Fits.roundTrips {f : FieldEntry} (hf : f.Fits) :
    RoundTrips TextFits FieldEntry.emit FieldEntry.decode f := by
  obtain ⟨hname, htype, hattributes⟩ := hf
  exact roundTrips_field hname htype.roundTrips (roundTrips_attributes hattributes)

/-- The name, types, implemented members and attributes of a method fit. -/
def MethodEntry.Fits (m : MethodEntry) : Prop :=
  TextFits m.name ∧ ListFits Signature.Fits m.parameters ∧ m.returnType.Fits ∧
    ListFits MemberSignature.Fits m.implemented ∧ ListFits AttributeEntry.Fits m.attributes

instance (m : MethodEntry) : Decidable m.Fits :=
  inferInstanceAs (Decidable (_ ∧ _))

/-- So do methods. -/
lemma roundTrips_method {m : MethodEntry} (hname : allowed m.name)
    (hparameters : RoundTrips allowed Signature.emitMany Signature.decodeMany m.parameters)
    (hreturn : RoundTrips allowed Signature.emit Signature.decode m.returnType)
    (himplemented : RoundTrips allowed (emitList MemberSignature.emit)
      (fun q => counted (MemberSignature.decode q)) m.implemented)
    (hattributes : RoundTrips allowed emitAttributes decodeAttributes m.attributes) :
    RoundTrips allowed MethodEntry.emit MethodEntry.decode m := by
  have hemit : m.emit = emitAll id
      [emitName m.name, Signature.emitMany m.parameters, m.returnType.emit,
        pure (Binary.word32 m.genericParameterCount), pure (Binary.word32 m.flags),
        emitList MemberSignature.emit m.implemented, emitAttributes m.attributes] := by
    simp [MethodEntry.emit, emitAll]
  unfold RoundTrips
  rw [hemit]
  exact (writes_name hname).cons <| hparameters.cons <| hreturn.cons <|
    (writes_bytes (reads_word32 _)).cons <| (writes_bytes (reads_word32 _)).cons <|
    himplemented.cons <| hattributes.cons writes_nil

lemma MethodEntry.Fits.roundTrips {m : MethodEntry} (hm : m.Fits) :
    RoundTrips TextFits MethodEntry.emit MethodEntry.decode m := by
  obtain ⟨hname, hparameters, hreturn, himplemented, hattributes⟩ := hm
  have hmembers := writes_list himplemented.1.isCount fun s hs => (himplemented.2 s hs).roundTrips
  exact roundTrips_method hname (Signature.roundTrips_of_listFits hparameters) hreturn.roundTrips
    hmembers (roundTrips_attributes hattributes)

/-- The name, types and attributes of a property fit. -/
def PropertyEntry.Fits (p : PropertyEntry) : Prop :=
  TextFits p.name ∧ p.type.Fits ∧ ListFits Signature.Fits p.parameters ∧
    ListFits AttributeEntry.Fits p.attributes

instance (p : PropertyEntry) : Decidable p.Fits :=
  inferInstanceAs (Decidable (_ ∧ _))

/-- So do properties. -/
lemma roundTrips_property {p : PropertyEntry} (hname : allowed p.name)
    (htype : RoundTrips allowed Signature.emit Signature.decode p.type)
    (hparameters : RoundTrips allowed Signature.emitMany Signature.decodeMany p.parameters)
    (hgetter : p.getter ≠ some missing) (hsetter : p.setter ≠ some missing)
    (hattributes : RoundTrips allowed emitAttributes decodeAttributes p.attributes) :
    RoundTrips allowed PropertyEntry.emit PropertyEntry.decode p := by
  have hemit : p.emit = emitAll id
      [emitName p.name, p.type.emit, Signature.emitMany p.parameters,
        pure (Binary.optionalIndex p.getter), pure (Binary.optionalIndex p.setter),
        emitAttributes p.attributes] := by
    simp [PropertyEntry.emit, emitAll]
  unfold RoundTrips
  rw [hemit]
  exact (writes_name hname).cons <| htype.cons <| hparameters.cons <|
    (writes_bytes (reads_optionalIndex hgetter)).cons <|
    (writes_bytes (reads_optionalIndex hsetter)).cons <| hattributes.cons writes_nil

lemma PropertyEntry.Fits.roundTrips {p : PropertyEntry} (hp : p.Fits)
    (hgetter : p.getter ≠ some missing) (hsetter : p.setter ≠ some missing) :
    RoundTrips TextFits PropertyEntry.emit PropertyEntry.decode p := by
  obtain ⟨hname, htype, hparameters, hattributes⟩ := hp
  exact roundTrips_property hname htype.roundTrips (Signature.roundTrips_of_listFits hparameters)
    hgetter hsetter (roundTrips_attributes hattributes)

/-- The name, type and attributes of an event fit. -/
def EventEntry.Fits (e : EventEntry) : Prop :=
  TextFits e.name ∧ e.type.Fits ∧ ListFits AttributeEntry.Fits e.attributes

instance (e : EventEntry) : Decidable e.Fits :=
  inferInstanceAs (Decidable (_ ∧ _))

/-- So do events. -/
lemma roundTrips_event {e : EventEntry} (hname : allowed e.name)
    (htype : RoundTrips allowed Signature.emit Signature.decode e.type)
    (hadder : e.adder ≠ some missing) (hremover : e.remover ≠ some missing)
    (hattributes : RoundTrips allowed emitAttributes decodeAttributes e.attributes) :
    RoundTrips allowed EventEntry.emit EventEntry.decode e := by
  have hemit : e.emit = emitAll id
      [emitName e.name, e.type.emit, pure (Binary.optionalIndex e.adder),
        pure (Binary.optionalIndex e.remover), emitAttributes e.attributes] := by
    simp [EventEntry.emit, emitAll]
  unfold RoundTrips
  rw [hemit]
  exact (writes_name hname).cons <| htype.cons <|
    (writes_bytes (reads_optionalIndex hadder)).cons <|
    (writes_bytes (reads_optionalIndex hremover)).cons <| hattributes.cons writes_nil

lemma EventEntry.Fits.roundTrips {e : EventEntry} (he : e.Fits)
    (hadder : e.adder ≠ some missing) (hremover : e.remover ≠ some missing) :
    RoundTrips TextFits EventEntry.emit EventEntry.decode e := by
  obtain ⟨hname, htype, hattributes⟩ := he
  exact roundTrips_event hname htype.roundTrips hadder hremover (roundTrips_attributes hattributes)

end

/-! ## Types -/

/-- A position inside a list that a length can hold does not stand for a missing one. -/
lemma ne_some_missing {index : Option UInt32} {n : ℕ} (hn : IsLength n)
    (h : ∀ i ∈ index, i.toNat < n) : index ≠ some missing := by
  intro hindex
  have hlt : missing.toNat < n := h missing hindex
  unfold IsLength at hn
  change 4294967295 < n at hlt
  omega

namespace TypeEntry

/-- The names, members and attributes of a type fit. -/
def Fits (t : TypeEntry) : Prop :=
  TextFits t.path ∧ TextFits t.name ∧ ListFits FieldEntry.Fits t.fields ∧
    ListFits MethodEntry.Fits t.methods ∧ ListFits PropertyEntry.Fits t.properties ∧
    ListFits EventEntry.Fits t.events ∧ ListFits AttributeEntry.Fits t.attributes

instance (t : TypeEntry) : Decidable t.Fits :=
  inferInstanceAs (Decidable (_ ∧ _))

/-- Every accessor is among the methods of the type. -/
def AccessorsInside (t : TypeEntry) : Prop :=
  ∀ i ∈ t.accessorIndices, i.toNat < t.methods.length

instance (t : TypeEntry) : Decidable t.AccessorsInside :=
  List.decidableBAll (fun i : UInt32 => i.toNat < t.methods.length) t.accessorIndices

variable {t : TypeEntry}

/-- The reader looks for an accessor that is missing, and finds none exactly if all are inside. -/
lemma missingAccessor?_eq_none_iff : t.missingAccessor? = none ↔ t.AccessorsInside := by
  simp [missingAccessor?, AccessorsInside]

lemma AccessorsInside.property (h : t.AccessorsInside) {p : PropertyEntry}
    (hp : p ∈ t.properties) : ∀ i ∈ p.getter.toList ++ p.setter.toList,
      i.toNat < t.methods.length :=
  fun i hi => h i (List.mem_append_left _ (List.mem_flatMap.2 ⟨p, hp, hi⟩))

lemma AccessorsInside.event (h : t.AccessorsInside) {e : EventEntry}
    (he : e ∈ t.events) : ∀ i ∈ e.adder.toList ++ e.remover.toList, i.toNat < t.methods.length :=
  fun i hi => h i (List.mem_append_right _ (List.mem_flatMap.2 ⟨e, he, hi⟩))

end TypeEntry

section

variable {allowed : String → Prop}

/-- So do types. -/
lemma roundTrips_type {t : TypeEntry} (hpath : allowed t.path) (hname : allowed t.name)
    (henclosing : t.enclosing ≠ some missing)
    (hfields : RoundTrips allowed (emitList FieldEntry.emit)
      (fun q => counted (FieldEntry.decode q)) t.fields)
    (hmethods : RoundTrips allowed (emitList MethodEntry.emit)
      (fun q => counted (MethodEntry.decode q)) t.methods)
    (hproperties : RoundTrips allowed (emitList PropertyEntry.emit)
      (fun q => counted (PropertyEntry.decode q)) t.properties)
    (hevents : RoundTrips allowed (emitList EventEntry.emit)
      (fun q => counted (EventEntry.decode q)) t.events)
    (hattributes : RoundTrips allowed emitAttributes decodeAttributes t.attributes)
    (haccessors : t.AccessorsInside) : RoundTrips allowed TypeEntry.emit TypeEntry.decode t := by
  have hemit : t.emit = emitAll id
      [emitName t.path, emitName t.name, pure (Binary.word32 t.genericParameterCount),
        pure (Binary.optionalIndex t.enclosing), pure (Binary.word32 t.flags),
        emitList FieldEntry.emit t.fields, emitList MethodEntry.emit t.methods,
        emitList PropertyEntry.emit t.properties, emitList EventEntry.emit t.events,
        emitAttributes t.attributes] := by
    simp [TypeEntry.emit, emitAll]
  unfold RoundTrips
  rw [hemit]
  -- the entry that is put together is `t`, so its accessors are checked with success
  have hnone := TypeEntry.missingAccessor?_eq_none_iff.mpr haccessors
  refine (writes_name hpath).cons <| (writes_name hname).cons <|
    (writes_bytes (reads_word32 _)).cons <|
    (writes_bytes (reads_optionalIndex henclosing)).cons <|
    (writes_bytes (reads_word32 _)).cons <| hfields.cons <| hmethods.cons <|
    hproperties.cons <| hevents.cons <| hattributes.cons ?_
  simp only [hnone]
  exact writes_nil

/-- So do types. -/
lemma TypeEntry.Fits.roundTrips {t : TypeEntry} (ht : t.Fits) (haccessors : t.AccessorsInside)
    (henclosing : t.enclosing ≠ some missing) :
    RoundTrips TextFits TypeEntry.emit TypeEntry.decode t := by
  obtain ⟨hpath, hname, hfields, hmethods, hproperties, hevents, hattributes⟩ := ht
  have hfieldList := writes_list hfields.1.isCount fun f hf => (hfields.2 f hf).roundTrips
  have hmethodList := writes_list hmethods.1.isCount fun m hm => (hmethods.2 m hm).roundTrips
  have hpropertyList := writes_list hproperties.1.isCount fun p hp => by
    have hinside := haccessors.property hp
    exact (hproperties.2 p hp).roundTrips
      (ne_some_missing hmethods.1 fun i hi => hinside i (by simp_all))
      (ne_some_missing hmethods.1 fun i hi => hinside i (by simp_all))
  have heventList := writes_list hevents.1.isCount fun e he => by
    have hinside := haccessors.event he
    exact (hevents.2 e he).roundTrips
      (ne_some_missing hmethods.1 fun i hi => hinside i (by simp_all))
      (ne_some_missing hmethods.1 fun i hi => hinside i (by simp_all))
  exact roundTrips_type hpath hname henclosing hfieldList hmethodList hpropertyList heventList
    (roundTrips_attributes hattributes) haccessors

end

end ScriptCompiler.Metadata
