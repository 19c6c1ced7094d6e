import Mathlib.Logic.Function.Basic
import ScriptCompiler.Proofs.Codec.Module

/-!
# A changed byte is detected

If one byte of a module's bytes is replaced by another one, the module is not read any more, and
the error says in which part of the file the byte was (`Module.decode_set_encode`).

The header needs no argument beyond the order of its checks.  In the payload the CRC-32 does the
work.  Taking in a bit loses nothing, because the polynomial sets the highest bit of the remainder,
which a shift alone leaves clear.  So remainders that differ keep differing over all further bytes,
and they do differ behind the byte that was replaced.
-/

namespace ScriptCompiler

namespace Binary

/-! ## The CRC-32 and a single byte -/

namespace Crc32

/-- The highest bit behind a shift is the bit that was taken in. -/
lemma getLsbD_shift_top (r : BitVec 32) : (shift r).getLsbD 31 = r.getLsbD 0 := by
  have hclear : (r >>> 1).getLsbD 31 = false := by simp
  have htop : polynomial.getLsbD 31 = true := by decide
  unfold shift
  by_cases hlow : r.getLsbD 0 = true
  · rw [if_pos hlow, BitVec.getLsbD_xor, hclear, htop, hlow]
    rfl
  · rw [if_neg hlow, hclear]
    simpa using hlow

/-- No bit of the remainder is lost when a bit is taken in. -/
lemma shift_injective : Function.Injective shift := by
  intro r t h
  have hlow : r.getLsbD 0 = t.getLsbD 0 := by
    rw [← getLsbD_shift_top r, ← getLsbD_shift_top t, h]
  have hhigh : r >>> 1 = t >>> 1 := by
    unfold shift at h
    rw [hlow] at h
    by_cases ht : t.getLsbD 0 = true
    · rw [if_pos ht, if_pos ht] at h
      exact (BitVec.xor_left_inj polynomial).mp h
    · rwa [if_neg ht, if_neg ht] at h
  apply BitVec.eq_of_getLsbD_eq
  intro i _
  cases i with
  | zero => exact hlow
  | succ i =>
    have hbit : (r >>> 1).getLsbD i = (t >>> 1).getLsbD i := by rw [hhigh]
    simpa [Nat.add_comm] using hbit

lemma shifts_injective (n : ℕ) : Function.Injective (shifts n) := by
  induction n with
  | zero => exact Function.injective_id
  | succ n ih => exact ih.comp shift_injective

/-- Different remainders stay different when they take in the same byte. -/
lemma step_left_injective (b : UInt8) : Function.Injective fun r => step r b := by
  intro r t h
  exact (BitVec.xor_left_inj _).mp (shifts_injective 8 h)

/-- A remainder takes in different bytes with different results. -/
lemma step_right_injective (r : BitVec 32) : Function.Injective (step r) := by
  intro a b h
  have hwide : a.toBitVec.setWidth 32 = b.toBitVec.setWidth 32 :=
    (BitVec.xor_right_inj r).mp (shifts_injective 8 h)
  have hbits : a.toBitVec = b.toBitVec := by
    have hcut := congrArg (BitVec.setWidth 8) hwide
    simpa using hcut
  exact UInt8.toBitVec_inj.mp hbits

/-- Different remainders stay different over any further bytes. -/
lemma foldl_step_injective (bs : Bytes) : Function.Injective fun r => bs.foldl step r := by
  induction bs with
  | nil => exact Function.injective_id
  | cons b bs ih => exact ih.comp (step_left_injective b)

end Crc32

/-- Replacing one byte changes the CRC-32. -/
lemma crc32_set_ne {bs : Bytes} {i : ℕ} {b : UInt8} (hi : i < bs.length) (hb : bs[i] ≠ b) :
    crc32 bs ≠ crc32 (bs.set i b) := by
  intro h
  have hbytes : bs = bs.take i ++ bs[i] :: bs.drop (i + 1) := by
    rw [← List.drop_eq_getElem_cons hi, List.take_append_drop]
  have hchanged : bs.set i b = bs.take i ++ b :: bs.drop (i + 1) := by
    rw [List.set_eq_take_append_cons_drop, if_pos hi]
  have hfold : bs.foldl Crc32.step (~~~0#32) = (bs.set i b).foldl Crc32.step (~~~0#32) :=
    BitVec.not_inj.mp (congrArg UInt32.toBitVec h)
  rw [hchanged] at hfold
  conv at hfold => lhs; rw [hbytes]
  rw [List.foldl_append, List.foldl_append, List.foldl_cons, List.foldl_cons] at hfold
  -- what follows the byte is the same on both sides, and so is what stands in front of it
  have hstep := Crc32.foldl_step_injective _ hfold
  exact hb (Crc32.step_right_injective _ hstep)

end Binary

namespace Metadata

open Binary
open Binary.Decoder

/-- Replacing an item by another one changes the list. -/
lemma set_ne_self {α : Type} {items : List α} {i : ℕ} {a : α} (hi : i < items.length)
    (ha : items[i] ≠ a) : items.set i a ≠ items := by
  intro h
  have hitem : (items.set i a)[i]? = some items[i] := by rw [h, List.getElem?_eq_getElem hi]
  rw [List.getElem?_set_self hi] at hitem
  exact ha (Option.some.inj hitem).symm

/-- An item of two lists in a row is replaced in the first or in the second one. -/
lemma set_append_cases {α : Type} {first rest : List α} {i : ℕ} {a : α}
    (hi : i < (first ++ rest).length) (ha : (first ++ rest)[i] ≠ a) :
    (∃ h : i < first.length, first[i] ≠ a ∧ (first ++ rest).set i a = first.set i a ++ rest) ∨
      first.length ≤ i ∧ ∃ h : i - first.length < rest.length, rest[i - first.length] ≠ a ∧
        (first ++ rest).set i a = first ++ rest.set (i - first.length) a := by
  by_cases h : i < first.length
  · rw [List.getElem_append_left h] at ha
    exact .inl ⟨h, ha, List.set_append_left _ _ h⟩
  · have hle : first.length ≤ i := Nat.le_of_not_lt h
    have hrest : i - first.length < rest.length := by
      rw [List.length_append] at hi
      omega
    rw [List.getElem_append_right hle] at ha
    exact .inr ⟨hle, hrest, ha, List.set_append_right _ _ hle⟩

namespace Module

variable {digest : Bytes → Bytes}

/-! ## The checks of the header -/

/-- Other magic bytes are refused. -/
lemma failsAll_magic {first : Bytes} (hlength : first.length = 4) (hfirst : first ≠ magic)
    (rest : Bytes) : FailsAll decodeHeader (first ++ rest) (.invalidMagic first) := by
  have hread : Reads (bytes 4) first first := by
    have hbytes := reads_bytes first
    rwa [hlength] at hbytes
  refine (hread.mapError _).bind_failsAll ?_
  rw [if_pos hfirst]
  exact (failsAll_throw _ _).bind _

/-- Another version is refused. -/
lemma failsAll_version {found : UInt32} (hfound : found ≠ version) (rest : Bytes) :
    FailsAll decodeHeader (magic ++ (Binary.word32 found ++ rest)) (.unsupportedVersion found) := by
  refine ((reads_bytes magic).mapError _).bind_failsAll ?_
  rw [if_neg (not_not_intro rfl)]
  refine ((reads_word32 found).mapError _).bind_failsAll ?_
  rw [if_pos hfound]
  exact (failsAll_throw _ _).bind _

/-- Another CRC-32 is refused. -/
lemma failsAll_crc (digest : Bytes → Bytes) {crc : UInt32} {payload : Bytes}
    (hcrc : crc ≠ crc32 payload) (hash : Bytes) :
    FailsAll (checkSums digest crc hash) payload (.checksumMismatch crc (crc32 payload)) := by
  intro position
  refine ⟨⟨position, payload⟩, ?_⟩
  show (if crc ≠ crc32 payload then _ else _ : Decoder ModuleError Unit) _ = _
  rw [if_pos hcrc]
  rfl

/-- Another digest is refused. -/
lemma failsAll_hash {hash payload : Bytes} (hhash : hash ≠ digest payload) :
    FailsAll (checkSums digest (crc32 payload) hash) payload
      (.hashMismatch hash (digest payload)) := by
  intro position
  refine ⟨⟨position, payload⟩, ?_⟩
  show (if crc32 payload ≠ crc32 payload then _ else _ : Decoder ModuleError Unit) _ = _
  rw [if_neg (not_not_intro rfl)]
  show (if hash ≠ digest payload then _ else _ : Decoder ModuleError Unit) _ = _
  rw [if_pos hhash]
  rfl

/-- What the check of the sums ends in, the module ends in. -/
lemma decode_of_failsAll_checkSums {crc : UInt32} {hash payload : Bytes} {e : ModuleError}
    (hlength : hash.length = 32) (h : FailsAll (checkSums digest crc hash) payload e) :
    (decoder digest).decode
        (magic ++ (Binary.word32 version ++ (Binary.word32 crc ++ (hash ++ payload)))) =
      .error e := by
  have hfails : FailsAll (decoder digest)
      ((magic ++ (Binary.word32 version ++ (Binary.word32 crc ++ hash))) ++ payload) e := by
    refine (reads_header hlength).bind_failsAll ?_
    exact h.bind _
  simp only [List.append_assoc] at hfails
  exact hfails.decode

/-! ## Replacing a byte -/

/-- The error that shows where a byte was replaced: magic bytes, version, CRC-32, digest and
payload follow each other. -/
def corruption (digest : Bytes → Bytes) (payload : Bytes) (i : ℕ) (b : UInt8) : ModuleError :=
  if i < 4 then .invalidMagic (magic.set i b)
  else if i < 8 then
    .unsupportedVersion (UInt32.ofNat (ofLittleEndian ((Binary.word32 version).set (i - 4) b)))
  else if i < 12 then
    .checksumMismatch
      (UInt32.ofNat (ofLittleEndian ((Binary.word32 (crc32 payload)).set (i - 8) b)))
      (crc32 payload)
  else if i < 44 then .hashMismatch ((digest payload).set (i - 12) b) (digest payload)
  else .checksumMismatch (crc32 payload) (crc32 (payload.set (i - 44) b))

/-- A 32-bit number one of whose bytes is replaced is another number. -/
lemma ofLittleEndian_set_ne {n : UInt32} {i : ℕ} {b : UInt8}
    (hi : i < (Binary.word32 n).length) (hb : (Binary.word32 n)[i] ≠ b) :
    UInt32.ofNat (ofLittleEndian ((Binary.word32 n).set i b)) ≠ n := by
  intro h
  have hlength : ((Binary.word32 n).set i b).length = 4 := by
    rw [List.length_set]
    exact length_littleEndian 4 _
  have hbytes := word32_ofLittleEndian hlength
  rw [h] at hbytes
  exact set_ne_self hi hb hbytes.symm

/-- If a byte of a payload or of its header is replaced by another one, reading them ends in the
error for the part of the file in which the byte was, whatever the digest. -/
lemma decode_set_withHeader (hdigest : IsDigest digest) (payload : Bytes) {i : ℕ} {b : UInt8}
    (hi : i < (withHeader digest payload).length) (hb : (withHeader digest payload)[i] ≠ b) :
    (decoder digest).decode ((withHeader digest payload).set i b) =
      .error (corruption digest payload i b) := by
  have hbytes : withHeader digest payload = magic ++ (Binary.word32 version ++
      (Binary.word32 (crc32 payload) ++ (digest payload ++ payload))) := by
    simp only [withHeader, List.append_assoc]
  have hmagic : magic.length = 4 := rfl
  have hword : ∀ n, (Binary.word32 n).length = 4 := fun n => length_littleEndian 4 _
  have hhash := hdigest payload
  generalize withHeader digest payload = bytes at hi hb hbytes ⊢
  subst hbytes
  unfold corruption
  -- the parts are peeled off from left to right until the one with the byte is in front
  rcases set_append_cases hi hb with ⟨hi4, hb4, hset⟩ | ⟨hle4, hi4, hb4, hset⟩
  · rw [if_pos (hmagic ▸ hi4), hset]
    have hlength : (magic.set i b).length = 4 := List.length_set
    exact ((failsAll_magic hlength (set_ne_self hi4 hb4) _).bind _).decode
  simp only [hmagic] at hle4 hi4 hb4 hset
  rw [if_neg (Nat.not_lt.mpr hle4), hset]
  rcases set_append_cases hi4 hb4 with ⟨hi8, hb8, hset⟩ | ⟨hle8, hi8, hb8, hset⟩
  · have hlt : i < 8 := by
      rw [hword] at hi8
      omega
    have hlength : ((Binary.word32 version).set (i - 4) b).length = 4 := by
      rw [List.length_set, hword]
    have hfails := failsAll_version (ofLittleEndian_set_ne hi8 hb8)
      (Binary.word32 (crc32 payload) ++ (digest payload ++ payload))
    rw [word32_ofLittleEndian hlength] at hfails
    rw [if_pos hlt, hset]
    exact (hfails.bind _).decode
  simp only [hword, Nat.sub_sub] at hle8 hi8 hb8 hset
  rw [if_neg (by omega), hset]
  rcases set_append_cases hi8 hb8 with ⟨hi12, hb12, hset⟩ | ⟨hle12, hi12, hb12, hset⟩
  · have hlt : i < 12 := by
      rw [hword] at hi12
      omega
    have hlength : ((Binary.word32 (crc32 payload)).set (i - 8) b).length = 4 := by
      rw [List.length_set, hword]
    have hfails := decode_of_failsAll_checkSums hhash
      (failsAll_crc digest (ofLittleEndian_set_ne hi12 hb12) (digest payload))
    rw [word32_ofLittleEndian hlength] at hfails
    rw [if_pos hlt, hset]
    exact hfails
  simp only [hword, Nat.sub_sub] at hle12 hi12 hb12 hset
  rw [if_neg (by omega), hset]
  rcases set_append_cases hi12 hb12 with ⟨hi44, hb44, hset⟩ | ⟨hle44, hi44, hb44, hset⟩
  · have hlt : i < 44 := by
      rw [hhash] at hi44
      omega
    have hlength : ((digest payload).set (i - 12) b).length = 32 := by
      rw [List.length_set, hhash]
    rw [if_pos hlt, hset]
    exact decode_of_failsAll_checkSums hlength (failsAll_hash (set_ne_self hi44 hb44))
  simp only [hhash, Nat.sub_sub] at hle44 hi44 hb44 hset
  rw [if_neg (by omega), hset]
  exact decode_of_failsAll_checkSums hhash (failsAll_crc digest (crc32_set_ne hi44 hb44) _)

/-- If a byte of a module's bytes is replaced by another one, reading them ends in the error for the
part of the file in which the byte was. -/
theorem decode_set_encode (m : Module) {i : ℕ} {b : UInt8} (hi : i < m.encode.length)
    (hb : m.encode[i] ≠ b) :
    decode (m.encode.set i b) = .error (corruption sha256 m.payload i b) :=
  decode_set_withHeader isDigest_sha256 m.payload hi hb

theorem decode_set_encode_nestedSample :
    nestedSample.encode[44]? = some 15 ∧
      decode (nestedSample.encode.set 44 14) =
        .error (.checksumMismatch (crc32 nestedSample.payload)
          (crc32 (nestedSample.payload.set 0 14))) := by
  have hbyte : nestedSample.encode[44]? = some 15 := by
    rw [← Nat.add_zero 44, ← List.getElem?_drop, encode, drop_withHeader isDigest_sha256]
    decide +kernel
  obtain ⟨hi, hb⟩ := List.getElem?_eq_some_iff.mp hbyte
  have hne : nestedSample.encode[44] ≠ 14 := by
    rw [hb]
    decide
  exact ⟨hbyte, decode_set_encode nestedSample hi hne⟩

end Module

end Metadata

end ScriptCompiler
