import ScriptCompiler.Proofs.Codec.Acceptance
import ScriptCompiler.Proofs.Codec.Module

/-!
# Whatever is read is written and read again

Bytes that nobody has checked may hold a text twice, or texts that nothing refers to, or a missing
text where one is needed, and more bytes may follow.  If they are accepted nevertheless, the module
that is read has none of this: it passes all checks on its own, and its own bytes are read as the
same module (`Module.decode_encode_of_decode`).

That the module can be written at all is a matter of sizes.  A list that was read was counted by a
32-bit number, and an index that was read is not the one for a missing one.  The names of a module
that was read are texts of the pool that came with it, so the pool that is written has no more
texts than that one.
-/

namespace ScriptCompiler.Metadata

open Binary
open Binary.Decoder

/-! ## Entries -/

lemma ensures_decodeName (q : Pool) : Ensures (decodeName q) (· ∈ q.strings) := by
  refine ensures_bind fun i => ?_
  cases hi : q.strings[i.toNat]? with
  | none =>
    rw [Pool.get, hi]
    exact ensures_throw _
  | some s =>
    rw [Pool.get, hi]
    exact ensures_pure (List.mem_of_getElem? hi)

/-- A signature that is read is read again from where it is written. -/
lemma Signature.ensures_decodeWithin (q : Pool) (depth : ℕ) :
    Ensures (decodeWithin q depth) (WritesWithin (· ∈ q.strings)) := by
  induction depth with
  | zero => exact ensures_bind fun position => ensures_throw _
  | succ depth ih =>
    refine ensures_bind fun offset => ensures_bind fun tag => ?_
    split
    · refine (ensures_decodeName q).bind fun name hname => ?_
      refine (ensures_counted ih).bind fun arguments harguments => ?_
      exact ensures_pure (writes_named hname harguments.1 harguments.2)
    · exact ensures_bind fun index => ensures_pure (writes_typeParameter index)
    · exact ensures_bind fun index => ensures_pure (writes_methodParameter index)
    · refine ih.bind fun element helement => ensures_bind fun rank => ?_
      exact ensures_pure (writes_array rank helement)
    · exact ih.bind fun target htarget => ensures_pure (writes_byRef htarget)
    · exact ih.bind fun target htarget => ensures_pure (writes_pointer htarget)
    · exact ensures_throw _

/-- What `decode` reads with a pool, it reads again from where `emit` writes it, and no other texts
are needed for that than those of the pool. -/
def Restores {α : Type} (emit : α → Emit Bytes) (decode : Pool → Decoder DecodeError α) : Prop :=
  ∀ q, Ensures (decode q) (RoundTrips (· ∈ q.strings) emit decode)

lemma restores_signature : Restores Signature.emit Signature.decode := by
  intro q
  refine ensures_bounded fun depth => ?_
  intro c s c' hs
  exact (Signature.ensures_decodeWithin q depth c s c' hs).bounded

lemma restores_signatures : Restores Signature.emitMany Signature.decodeMany := by
  intro q c ss c' hss
  obtain ⟨hlength, hall⟩ := ensures_counted (restores_signature q) c ss c' hss
  exact Signature.roundTrips_many hlength hall

lemma Restores.list {α : Type} {emit : α → Emit Bytes} {decode : Pool → Decoder DecodeError α}
    (h : Restores emit decode) : Restores (emitList emit) fun q => counted (decode q) := by
  intro q c items c' hitems
  obtain ⟨hlength, hall⟩ := ensures_counted (h q) c items c' hitems
  exact writes_list hlength hall

lemma restores_memberSignature : Restores MemberSignature.emit MemberSignature.decode := by
  intro q
  refine (restores_signature q).bind fun declaringType hdeclaring => ?_
  refine (ensures_decodeName q).bind fun name hname => ?_
  refine (restores_signatures q).bind fun parameters hparameters => ?_
  refine (restores_signature q).bind fun returnType hreturn => ?_
  exact ensures_pure (roundTrips_memberSignature hdeclaring hname hparameters hreturn)

lemma restores_attribute : Restores AttributeEntry.emit AttributeEntry.decode := by
  intro q
  refine (restores_memberSignature q).bind fun constructor hconstructor => ?_
  exact ensures_blob.bind fun blob hblob =>
    ensures_pure (roundTrips_attribute hconstructor hblob)

lemma restores_attributes : Restores emitAttributes decodeAttributes :=
  restores_attribute.list

lemma restores_field : Restores FieldEntry.emit FieldEntry.decode := by
  intro q
  refine (ensures_decodeName q).bind fun name hname => ?_
  refine (restores_signature q).bind fun type htype => ?_
  refine ensures_bind fun flags => ?_
  refine (restores_attributes q).bind fun attributes hattributes => ?_
  exact ensures_pure (roundTrips_field hname htype hattributes)

lemma restores_method : Restores MethodEntry.emit MethodEntry.decode := by
  intro q
  refine (ensures_decodeName q).bind fun name hname => ?_
  refine (restores_signatures q).bind fun parameters hparameters => ?_
  refine (restores_signature q).bind fun returnType hreturn => ?_
  refine ensures_bind fun genericParameterCount => ensures_bind fun flags => ?_
  refine (restores_memberSignature.list q).bind fun implemented himplemented => ?_
  refine (restores_attributes q).bind fun attributes hattributes => ?_
  exact ensures_pure (roundTrips_method hname hparameters hreturn himplemented hattributes)

lemma restores_property : Restores PropertyEntry.emit PropertyEntry.decode := by
  intro q
  refine (ensures_decodeName q).bind fun name hname => ?_
  refine (restores_signature q).bind fun type htype => ?_
  refine (restores_signatures q).bind fun parameters hparameters => ?_
  refine ensures_optionalIndex.bind fun getter hgetter => ?_
  refine ensures_optionalIndex.bind fun setter hsetter => ?_
  refine (restores_attributes q).bind fun attributes hattributes => ?_
  exact ensures_pure (roundTrips_property hname htype hparameters hgetter hsetter hattributes)

lemma restores_event : Restores EventEntry.emit EventEntry.decode := by
  intro q
  refine (ensures_decodeName q).bind fun name hname => ?_
  refine (restores_signature q).bind fun type htype => ?_
  refine ensures_optionalIndex.bind fun adder hadder => ?_
  refine ensures_optionalIndex.bind fun remover hremover => ?_
  refine (restores_attributes q).bind fun attributes hattributes => ?_
  exact ensures_pure (roundTrips_event hname htype hadder hremover hattributes)

/-- A type that is read has its accessors among its methods, and is read again. -/
lemma ensures_type (q : Pool) : Ensures (TypeEntry.decode q) fun t =>
    t.AccessorsInside ∧ RoundTrips (· ∈ q.strings) TypeEntry.emit TypeEntry.decode t := by
  refine (ensures_decodeName q).bind fun path hpath => ?_
  refine (ensures_decodeName q).bind fun name hname => ensures_bind fun genericParameterCount => ?_
  refine ensures_optionalIndex.bind fun enclosing henclosing => ensures_bind fun flags => ?_
  refine (restores_field.list q).bind fun fields hfields => ?_
  refine (restores_method.list q).bind fun methods hmethods => ?_
  refine (restores_property.list q).bind fun properties hproperties => ?_
  refine (restores_event.list q).bind fun events hevents => ?_
  refine (restores_attributes q).bind fun attributes hattributes => ?_
  dsimp only
  split
  · exact ensures_throw _
  · next hnone =>
    have hinside := TypeEntry.missingAccessor?_eq_none_iff.mp hnone
    exact ensures_pure ⟨hinside, roundTrips_type hpath hname henclosing hfields hmethods
      hproperties hevents hattributes hinside⟩

/-! ## Modules -/

namespace Module

lemma ensures_decodePool : Ensures Pool.decode fun q =>
    IsCount q.strings.length ∧ ∀ s ∈ q.strings, TextFits s := by
  refine (ensures_counted ensures_string).bind fun strings hstrings => ensures_pure ?_
  rw [Pool.strings_foldl_append]
  exact hstrings

/-- Name and types that are read can be written with the texts of a pool that fits. -/
lemma ensures_decodePayload : Ensures decodePayload fun (name, types) =>
    (∀ t ∈ types, t.AccessorsInside) ∧
      ∃ strings : List String, IsCount strings.length ∧ (∀ s ∈ strings, TextFits s) ∧
        ∀ checksum, WritesTables (· ∈ strings) { name, types, checksum } := by
  refine ensures_decodePool.bind fun q hq => ?_
  refine (ensures_decodeName q).bind fun name hname => ?_
  refine (ensures_counted (ensures_type q)).bind fun types htypes => ensures_pure ?_
  obtain ⟨hlength, hall⟩ := htypes
  refine ⟨fun t ht => (hall t ht).1, q.strings, hq.1, hq.2, fun checksum => ?_⟩
  exact writesTables hname hlength fun t ht => (hall t ht).2

/-- The parts of a header that is accepted. -/
lemma decodeHeader_eq_ok {crc : UInt32} {hash : Bytes} {c c' : Cursor}
    (h : decodeHeader c = .ok (crc, hash) c') :
    hash.length = 32 ∧ c.rest =
      magic ++ (Binary.word32 version ++ (Binary.word32 crc ++ (hash ++ c'.rest))) := by
  obtain ⟨first, c₁, hfirst, h⟩ := bind_eq_ok h
  obtain ⟨hmagic, h⟩ := ite_throw_eq_ok h
  obtain ⟨found, c₂, hfound, h⟩ := bind_eq_ok h
  obtain ⟨hversion, h⟩ := ite_throw_eq_ok h
  obtain ⟨crc', c₃, hcrc, h⟩ := bind_eq_ok h
  obtain ⟨hash', c₄, hhash, h⟩ := bind_eq_ok h
  cases h
  have hrest := (bytes_eq_ok (mapError_eq_ok hfirst)).2
  have hrest₁ := word32_eq_ok (mapError_eq_ok hfound)
  have hrest₂ := word32_eq_ok (mapError_eq_ok hcrc)
  obtain ⟨hlength, hrest₃⟩ := bytes_eq_ok (mapError_eq_ok hhash)
  rw [not_not.mp hmagic] at hrest
  rw [not_not.mp hversion] at hrest₁
  exact ⟨hlength, by rw [hrest, hrest₁, hrest₂, hrest₃]⟩

variable {digest : Bytes → Bytes}

/-- Sums that are accepted are those of the payload. -/
lemma checkSums_eq_ok {crc : UInt32} {hash : Bytes} {c c' : Cursor}
    (h : checkSums digest crc hash c = .ok () c') :
    c' = c ∧ crc = crc32 c.rest ∧ hash = digest c.rest := by
  change (if crc ≠ crc32 c.rest then _ else _ : Decoder ModuleError Unit) c = _ at h
  by_cases hcrc : crc ≠ crc32 c.rest
  · rw [if_pos hcrc] at h
    cases h
  rw [if_neg hcrc] at h
  change (if hash ≠ digest c.rest then _ else _ : Decoder ModuleError Unit) c = _ at h
  by_cases hhash : hash ≠ digest c.rest
  · rw [if_pos hhash] at h
    cases h
  rw [if_neg hhash] at h
  cases h
  exact ⟨rfl, not_not.mp hcrc, not_not.mp hhash⟩

/-- Bytes that are accepted are a payload behind its header, and the module is what the payload is
read as. -/
lemma decode_eq_ok {data : Bytes} {m : Module} (h : (decoder digest).decode data = .ok m) :
    ∃ payload, data = withHeader digest payload ∧ m.checksum = digest payload ∧
      checkEnclosing m.types = .ok () ∧
      ∃ c c', decodePayload c = .ok (m.name, m.types) c' := by
  have hrun : ∃ c, decoder digest (.start data) = .ok m c := by
    unfold Decoder.decode at h
    split at h
    · next m' c hrun =>
      cases h
      exact ⟨c, hrun⟩
    · cases h
  obtain ⟨c, hrun⟩ := hrun
  obtain ⟨⟨crc, hash⟩, c₁, hheader, hrun⟩ := bind_eq_ok hrun
  obtain ⟨⟨⟩, c₂, hsums, hrun⟩ := bind_eq_ok hrun
  obtain ⟨⟨name, types⟩, c₃, hpayload, hrun⟩ := bind_eq_ok hrun
  obtain ⟨-, hdata⟩ := decodeHeader_eq_ok hheader
  obtain ⟨-, hcrc, hhash⟩ := checkSums_eq_ok hsums
  change data = _ at hdata
  dsimp only at hrun
  cases hchecked : checkEnclosing types with
  | error e =>
    rw [hchecked] at hrun
    cases hrun
  | ok u =>
    rw [hchecked] at hrun
    cases hrun
    refine ⟨c₁.rest, ?_, hhash, hchecked, c₂, _, mapError_eq_ok hpayload⟩
    rw [hdata, hcrc, hhash, withHeader]
    simp only [List.append_assoc]

/-- The reader lets no accessor point outside the methods of its type. -/
lemma accessorsInside_of_decode {data : Bytes} {m : Module} (h : decode data = .ok m) :
    ∀ t ∈ m.types, t.AccessorsInside := by
  obtain ⟨payload, -, -, -, c, c', hpayload⟩ := decode_eq_ok h
  exact (ensures_decodePayload c (m.name, m.types) c' hpayload).1

/-- A module that is read, from whatever bytes, has its accessors among the methods and its chains
of enclosing types inside the module and without cycles.  Its sum is that of the bytes behind the
header, which holds their CRC-32; and its own bytes are read as the same name and types. -/
theorem decode_encode_of_decode {data : Bytes} {m : Module} (h : decode data = .ok m) :
    (∀ t ∈ m.types, t.AccessorsInside) ∧ EnclosingInside m.types ∧ EnclosingAcyclic m.types ∧
      m.checksum = sha256 (data.drop 44) ∧
      (data.drop 8).take 4 = Binary.word32 (crc32 (data.drop 44)) ∧
      decode m.encode = .ok { m with checksum := sha256 m.payload } := by
  obtain ⟨payload, hdata, hchecksum, hchecked, c, c', hpayload⟩ := decode_eq_ok h
  obtain ⟨haccessors, strings, hcount, hfits, htables⟩ :=
    ensures_decodePayload c (m.name, m.types) c' hpayload
  have hwrites := htables m.checksum
  have hpool : IsCount (m.emitTables.run {}).2.strings.length :=
    Nat.lt_of_le_of_lt hwrites.length_strings_le hcount
  have hencode : decode m.encode = .ok { m with checksum := sha256 m.payload } :=
    (readsAll_withHeader isDigest_sha256 (hwrites.reads_payload hfits hpool) hchecked).decode
  have hcrc : (data.drop 8).take 4 = Binary.word32 (crc32 payload) := by
    rw [hdata, withHeader]
    rfl
  rw [hcrc, hdata, drop_withHeader isDigest_sha256]
  obtain ⟨hinside, hacyclic⟩ := checkEnclosing_eq_ok_iff_acyclic.mp hchecked
  exact ⟨haccessors, hinside, hacyclic, hchecksum, rfl, hencode⟩

/-- A payload with a text that is stored twice, a missing text, and a byte behind the types. -/
def untidyPayload : Bytes :=
  count 3 ++ Binary.string "lib" ++ Binary.nullableString none ++ Binary.string "lib" ++
    Binary.word32 2 ++ count 2 ++
    -- a type with a getter and its property
    Binary.word32 1 ++ Binary.word32 0 ++ Binary.word32 0 ++ Binary.optionalIndex none ++
    Binary.word32 0 ++ count 0 ++
    count 1 ++ Binary.word32 1 ++ count 0 ++ (2 :: Binary.word32 0) ++ Binary.word32 0 ++
    Binary.word32 0 ++ count 0 ++ count 0 ++
    count 1 ++ Binary.word32 2 ++ (2 :: Binary.word32 0) ++ count 0 ++
    Binary.optionalIndex (some 0) ++ Binary.optionalIndex none ++ count 0 ++
    count 0 ++ count 0 ++
    -- a type nested in it
    Binary.word32 1 ++ Binary.word32 2 ++ Binary.word32 0 ++ Binary.optionalIndex (some 0) ++
    Binary.word32 0 ++ count 0 ++ count 0 ++ count 0 ++ count 0 ++ count 0 ++ [7]

/-- What is read from the payload. -/
def untidySample : Module where
  name := "lib"
  types :=
    [{ name := "lib",
       methods := [{ name := "", returnType := .typeParameter 0 }],
       properties := [{ name := "lib", type := .typeParameter 0, getter := some 0 }] },
     { name := "lib", enclosing := some 0 }]
  checksum := sha256 untidyPayload

lemma decode_untidyPayload : decode (withHeader sha256 untidyPayload) = .ok untidySample := by
  have hvalue : decodePayload.run' ⟨0 + 44, untidyPayload⟩ =
      some (untidySample.name, untidySample.types) := by decide +kernel
  have hchecked : checkEnclosing untidySample.types = .ok () := by decide
  delta EStateM.run' EStateM.run at hvalue
  cases hrun : decodePayload ⟨0 + 44, untidyPayload⟩ with
  | error e c =>
    rw [hrun] at hvalue
    cases hvalue
  | ok tables c =>
    rw [hrun] at hvalue
    cases hvalue
    rw [decode, Decoder.decode, Cursor.start, decoder_withHeader isDigest_sha256 hrun
      hchecked]
    rfl

theorem decode_encode_of_decode_untidySample :
    decode (withHeader sha256 untidyPayload) = .ok untidySample ∧ untidySample.payload ≠ untidyPayload ∧
      decode untidySample.encode =
        .ok { untidySample with checksum := sha256 untidySample.payload } := by
  obtain ⟨-, -, -, -, -, hagain⟩ := decode_encode_of_decode decode_untidyPayload
  exact ⟨decode_untidyPayload, by decide +kernel, hagain⟩

end Module

end ScriptCompiler.Metadata
