import ScriptCompiler.Metadata.Catalog
import ScriptCompiler.Proofs.Codec.Enclosing
import ScriptCompiler.Proofs.Codec.Tables

/-!
# Modules read back

The bytes of a module are read as the module, with the sum of its payload filled in.  Everything
that the reader checks is asked for here without the reader: accessors are among the methods of
their type, and enclosing types are types of the module and never lead back to where they started.
-/

namespace ScriptCompiler.Metadata

open Binary
open Binary.Decoder

/-! ## The pool -/

/-- The texts of a pool follow each other. -/
lemma Pool.strings_foldl_append (strings : List String) (p : Pool) :
    (strings.foldl append p).strings = p.strings ++ strings := by
  induction strings generalizing p with
  | nil => exact (List.append_nil _).symm
  | cons s strings ih => rw [List.foldl_cons, ih, append, List.append_assoc]; rfl

/-- A pool is read as one with the same texts. -/
lemma Pool.reads_decode {p : Pool} (hfits : ∀ s ∈ p.strings, TextFits s)
    (hlength : IsCount p.strings.length) :
    Reads Pool.decode p.encode (p.strings.foldl Pool.append {}) := by
  have hstrings : List.Forall₂ (Reads Decoder.string) (p.strings.map Binary.string) p.strings :=
    List.forall₂_map_left_iff.2 (List.forall₂_same.2 fun s hs => reads_string (hfits s hs))
  have hread := (reads_counted hlength hstrings).map fun strings => strings.foldl Pool.append {}
  rwa [← List.flatMap_def] at hread

/-! ## The payload and its header -/

namespace Module

/-- What the format can hold and the reader accepts. -/
structure Storable (m : Module) : Prop where
  name : TextFits m.name
  types : ListFits TypeEntry.Fits m.types
  pool : IsLength (m.emitTables.run {}).2.strings.length
  accessors : ∀ t ∈ m.types, t.AccessorsInside
  inside : EnclosingInside m.types
  acyclic : EnclosingAcyclic m.types

/-- Name and types are read back from the tables. -/
abbrev WritesTables (allowed : String → Prop) (m : Module) : Prop :=
  Writes allowed m.emitTables
    (fun q _ => do return (← decodeName q, ← counted (TypeEntry.decode q))) (m.name, m.types)

variable {m : Module} {allowed : String → Prop}

lemma writesTables (hname : allowed m.name) (hlength : IsCount m.types.length)
    (htypes : ∀ t ∈ m.types, RoundTrips allowed TypeEntry.emit TypeEntry.decode t) :
    m.WritesTables allowed :=
  (writes_name hname).append ((writes_list hlength htypes).map (m.name, ·))

lemma Storable.writesTables (hm : m.Storable) : m.WritesTables TextFits :=
  Module.writesTables hm.name hm.types.1.isCount fun t ht =>
    (hm.types.2 t ht).roundTrips (hm.accessors t ht) (ne_some_missing hm.types.1 (hm.inside t ht))

lemma WritesTables.reads_payload (hm : m.WritesTables allowed)
    (hfits : ∀ s, allowed s → TextFits s)
    (hpool : IsCount (m.emitTables.run {}).2.strings.length) :
    Reads decodePayload m.payload (m.name, m.types) := by
  have htexts : ∀ s ∈ (m.emitTables.run {}).2.strings, TextFits s := by
    intro s hs
    rcases hm.texts {} s hs with hnil | hallowed
    · cases hnil
    · exact hfits s hallowed
  have hpayload : m.payload = (m.emitTables.run {}).2.encode ++ (m.emitTables.run {}).1 := rfl
  rw [hpayload]
  refine (Pool.reads_decode htexts hpool).bind ?_
  have hstrings := Pool.strings_foldl_append (m.emitTables.run {}).2.strings {}
  refine hm.reads Pool.indexed_empty ?_ ?_ (Nat.le_refl _)
  · rw [hstrings]
    exact List.prefix_refl _
  · rw [hstrings]
    exact hpool

/-- A digest that fills its place in the header.  Nothing else is asked of it. -/
def IsDigest (digest : Bytes → Bytes) : Prop :=
  ∀ payload, (digest payload).length = 32

/-- The SHA-256 is a digest. -/
lemma isDigest_sha256 : IsDigest sha256 := fun payload => by
  simp [sha256, Sha256.State.bytes, Sha256.bigEndian, length_littleEndian]

variable {digest : Bytes → Bytes}

/-- The header has 44 bytes. -/
lemma length_header (hdigest : IsDigest digest) (payload : Bytes) :
    (magic ++ Binary.word32 version ++ Binary.word32 (crc32 payload) ++ digest payload).length =
      44 := by
  rw [List.length_append, hdigest]
  rfl

/-- The payload of a file stands behind 44 bytes. -/
lemma drop_withHeader (hdigest : IsDigest digest) (payload : Bytes) :
    (withHeader digest payload).drop 44 = payload := by
  rw [withHeader, ← length_header hdigest payload, List.drop_left]

/-- The header is read as the two sums in it. -/
lemma reads_header {crc : UInt32} {hash : Bytes} (hlength : hash.length = 32) :
    Reads decodeHeader (magic ++ (Binary.word32 version ++ (Binary.word32 crc ++ hash)))
      (crc, hash) := by
  have hhash := reads_bytes hash
  rw [hlength] at hhash
  refine ((reads_bytes magic).mapError _).bind ?_
  rw [if_neg (not_not_intro rfl)]
  refine ((reads_word32 version).mapError _).bind ?_
  rw [if_neg (not_not_intro rfl)]
  exact ((reads_word32 crc).mapError _).bind ((hhash.mapError _).map (crc, ·))

/-- The sums of a payload are accepted. -/
lemma checkSums_run (payload : Bytes) (position : ℕ) :
    checkSums digest (crc32 payload) (digest payload) ⟨position, payload⟩ =
      .ok () ⟨position, payload⟩ := by
  show (if crc32 payload ≠ crc32 payload then _ else _ : Decoder ModuleError Unit) _ = _
  rw [if_neg (not_not_intro rfl)]
  show (if digest payload ≠ digest payload then _ else _ : Decoder ModuleError Unit) _ = _
  rw [if_neg (not_not_intro rfl)]
  rfl

/-- The sums of the payload are the ones in its header, and checking them moves nothing. -/
lemma checkSums_bind_run {α : Type} (payload : Bytes) (k : Unit → Decoder ModuleError α)
    (position : ℕ) : (checkSums digest (crc32 payload) (digest payload) >>= k) ⟨position, payload⟩ =
      k () ⟨position, payload⟩ := by
  show EStateM.bind _ k _ = _
  rw [EStateM.bind, checkSums_run]

/-- If a payload is read, so is the module that consists of the payload and its header. -/
lemma decoder_withHeader (hdigest : IsDigest digest) {payload : Bytes} {name : String}
    {types : List TypeEntry} {c : Cursor} {position : ℕ}
    (hpayload : decodePayload ⟨position + 44, payload⟩ = .ok (name, types) c)
    (henclosing : checkEnclosing types = .ok ()) :
    decoder digest ⟨position, withHeader digest payload⟩ =
      .ok { name, types, checksum := digest payload } c := by
  have hlength : (magic ++ (Binary.word32 version ++
      (Binary.word32 (crc32 payload) ++ digest payload))).length = 44 := by
    simp only [← List.append_assoc]
    exact length_header hdigest payload
  have hbytes : withHeader digest payload = (magic ++ (Binary.word32 version ++
      (Binary.word32 (crc32 payload) ++ digest payload))) ++ payload := by
    simp only [withHeader, List.append_assoc]
  rw [hbytes, decoder, (reads_header (hdigest payload)).run_bind, hlength]
  refine (checkSums_bind_run payload _ _).trans ?_
  show EStateM.bind (decodePayload.mapError ModuleError.decodeError) _ _ = _
  rw [EStateM.bind, Decoder.mapError, hpayload]
  dsimp only
  rw [henclosing]
  rfl

/-- A module whose payload is read back is read back behind its header, whatever the digest. -/
lemma readsAll_withHeader (hdigest : IsDigest digest)
    (hpayload : Reads decodePayload m.payload (m.name, m.types))
    (henclosing : checkEnclosing m.types = .ok ()) :
    ReadsAll (decoder digest) (withHeader digest m.payload)
      { m with checksum := digest m.payload } := by
  intro position
  have hlength : (withHeader digest m.payload).length = 44 + m.payload.length := by
    rw [withHeader, List.length_append, length_header hdigest]
  rw [hlength, ← Nat.add_assoc]
  exact decoder_withHeader hdigest (hpayload.all _) henclosing

/-- A module that can be stored is read back behind its header, whatever the digest. -/
lemma Storable.readsAll (hm : m.Storable) (hdigest : IsDigest digest) :
    ReadsAll (decoder digest) (withHeader digest m.payload)
      { m with checksum := digest m.payload } :=
  readsAll_withHeader hdigest (hm.writesTables.reads_payload (fun _ hs => hs) hm.pool.isCount)
    (checkEnclosing_eq_ok_iff_acyclic.mpr ⟨hm.inside, hm.acyclic⟩)

/-- The bytes of a module are read as the module, with the sum of its payload; and a catalog that
is read from them answers as the catalog of the module does. -/
theorem decode_encode {m : Module} (hm : m.Storable) :
    decode m.encode = .ok { m with checksum := sha256 m.payload } ∧
      ∃ c, Catalog.ofBytes m.encode = .ok c ∧
        (∀ name, c.findType? name = (Catalog.ofModule m).findType? name) ∧
        (∀ i, c.type? i = (Catalog.ofModule m).type? i) ∧
        ∀ h, c.attributes h = (Catalog.ofModule m).attributes h := by
  have hdecode : decode m.encode = .ok { m with checksum := sha256 m.payload } :=
    (hm.readsAll isDigest_sha256).decode
  refine ⟨hdecode, Catalog.ofModule { m with checksum := sha256 m.payload }, ?_, ?_⟩
  · rw [Catalog.ofBytes, hdecode]
    rfl
  · -- the catalog looks at the types only, never at the sum
    exact ⟨fun _ => rfl, fun _ => rfl, fun _ => rfl⟩

/-- A generic type with an explicitly implemented property, and a type nested in it. -/
def nestedSample : Module where
  name := "sample"
  types :=
    [{ path := "Sample", name := "Box`1", genericParameterCount := 1,
       methods :=
         [{ name := "Sample.IBox<T>.get_Item",
            returnType := .named "Sample.Pair`2" [.typeParameter 0, .array (.methodParameter 0) 2],
            implemented :=
              [⟨.named "Sample.IBox`1" [.typeParameter 0], "get_Item", [], .simple ""⟩] }],
       properties :=
         [{ name := "Sample.IBox<T>.Item", type := .typeParameter 0, getter := some 0 }],
       attributes := [⟨⟨.simple "Sample.Tag", ".ctor", [], .simple "System.Void"⟩, [1, 0, 0, 0]⟩] },
     { name := "Entry", enclosing := some 0,
       fields := [{ name := "next", type := .pointer (.named "Sample.Box`1+Entry" []) }] }]

lemma storable_nestedSample : nestedSample.Storable where
  name := by decide
  types := by decide +kernel
  pool := by decide +kernel
  accessors := by decide
  inside := by decide
  acyclic := by
    refine enclosingAcyclic_of_lt ?_
    rintro i j ⟨t, ht, k, hk, rfl⟩
    match i with
    | 0 => cases ht; cases hk
    | 1 => cases ht; cases hk; decide
    | i + 2 => cases ht

theorem decode_encode_nestedSample :
    nestedSample.Storable ∧
      decode nestedSample.encode =
        .ok { nestedSample with checksum := sha256 nestedSample.payload } :=
  ⟨storable_nestedSample, (decode_encode storable_nestedSample).1⟩

end Module

end ScriptCompiler.Metadata
