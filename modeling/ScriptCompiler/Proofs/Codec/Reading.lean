import Mathlib.Algebra.Order.Ring.Nat
import Mathlib.Data.List.Forall2
import ScriptCompiler.Binary.Decoder

/-!
# What a decoder reads off

A decoder reads a sequence of bytes as a value if, with these bytes in front of any others, it
yields the value and stops right behind them.  The rules below follow the way decoders are put
together: a value read after another, a number of values in a row, a value behind its length.

Only two decoders look further than the bytes that are theirs: `Decoder.remaining` and, through
it, `Decoder.bounded`.  They see the length of everything that is left, so their rules ask for a
statement about every number that is large enough.
-/

namespace ScriptCompiler.Binary

/-! ## Numbers -/

lemma length_littleEndian (size n : ℕ) : (littleEndian size n).length = size := by
  induction size generalizing n with
  | zero => rfl
  | succ size ih => simp [littleEndian, ih]

/-- The lowest bytes of a number that fits into them denote it. -/
lemma ofLittleEndian_littleEndian {size n : ℕ} (h : n < 256 ^ size) :
    ofLittleEndian (littleEndian size n) = n := by
  induction size generalizing n with
  | zero =>
    have hn : n = 0 := by simpa using h
    rw [hn]
    rfl
  | succ size ih =>
    have hrest : n / 256 < 256 ^ size := by
      rw [Nat.div_lt_iff_lt_mul (by decide), ← pow_succ]
      exact h
    have hbyte : (UInt8.ofNat (n % 256)).toNat = n % 256 :=
      UInt8.toNat_ofNat_of_lt' (Nat.mod_lt n (by decide))
    rw [littleEndian, ofLittleEndian, ih hrest, hbyte]
    exact Nat.mod_add_div n 256

/-- Bytes are the lowest bytes of the number that they denote. -/
lemma littleEndian_ofLittleEndian (bs : Bytes) :
    littleEndian bs.length (ofLittleEndian bs) = bs := by
  induction bs with
  | nil => rfl
  | cons b bs ih =>
    have hbyte : (b.toNat + 256 * ofLittleEndian bs) % 256 = b.toNat := by
      rw [Nat.add_mul_mod_self_left, Nat.mod_eq_of_lt b.toNat_lt]
    have hrest : (b.toNat + 256 * ofLittleEndian bs) / 256 = ofLittleEndian bs := by
      rw [Nat.add_mul_div_left _ _ (by decide), Nat.div_eq_of_lt b.toNat_lt, Nat.zero_add]
    rw [List.length_cons, ofLittleEndian, littleEndian, hbyte, hrest, ih, UInt8.ofNat_toNat]

lemma ofLittleEndian_lt (bs : Bytes) : ofLittleEndian bs < 256 ^ bs.length := by
  induction bs with
  | nil => exact Nat.one_pos
  | cons b bs ih =>
    have hbyte : b.toNat < 256 := b.toNat_lt
    rw [ofLittleEndian, List.length_cons, pow_succ]
    omega

/-- Four bytes are those of the 32-bit number that they denote. -/
lemma word32_ofLittleEndian {bs : Bytes} (h : bs.length = 4) :
    word32 (UInt32.ofNat (ofLittleEndian bs)) = bs := by
  have hlt : ofLittleEndian bs < 2 ^ 32 := by
    have hbound := ofLittleEndian_lt bs
    rwa [h] at hbound
  have hnumber : (UInt32.ofNat (ofLittleEndian bs)).toNat = ofLittleEndian bs :=
    UInt32.toNat_ofNat_of_lt' hlt
  rw [word32, hnumber, ← h, littleEndian_ofLittleEndian]

/-- Every text is read back from its bytes. -/
lemma fromUTF8?_utf8 (s : String) : String.fromUTF8? (utf8 s).toByteArray = some s := by
  have hbytes : (utf8 s).toByteArray = s.toByteArray := by
    apply ByteArray.ext
    simp [utf8]
  rw [hbytes]
  unfold String.fromUTF8?
  rw [dif_pos s.isValidUTF8]
  rfl

lemma utf8_ofList (cs : List Char) :
    utf8 (String.ofList cs) = cs.flatMap String.utf8EncodeChar := by
  simp [utf8, List.utf8Encode]

/-- Letters of one byte each. -/
lemma length_utf8_replicate (n : ℕ) :
    (utf8 (String.ofList (List.replicate n 'a'))).length = n := by
  rw [utf8_ofList, List.length_flatMap, List.map_replicate, List.sum_replicate_nat]
  exact Nat.mul_one n

/-- A 32-bit number can hold this count. -/
def IsCount (n : ℕ) : Prop :=
  n < 2 ^ 32

lemma IsCount.toNat_ofNat {n : ℕ} (h : IsCount n) : (UInt32.ofNat n).toNat = n :=
  UInt32.toNat_ofNat_of_lt' h

lemma isCount_toNat (n : UInt32) : IsCount n.toNat :=
  n.toNat_lt

/-- A 32-bit number can hold this length, and it is not the one that stands for a missing text. -/
def IsLength (n : ℕ) : Prop :=
  n < 2 ^ 32 - 1

instance (n : ℕ) : Decidable (IsLength n) :=
  inferInstanceAs (Decidable (n < 2 ^ 32 - 1))

lemma IsLength.isCount {n : ℕ} (h : IsLength n) : IsCount n := by
  unfold IsLength at h
  unfold IsCount
  omega

lemma IsLength.toNat_ofNat {n : ℕ} (h : IsLength n) : (UInt32.ofNat n).toNat = n :=
  h.isCount.toNat_ofNat

/-- A length is never the mark for missing. -/
lemma IsLength.ofNat_ne_missing {n : ℕ} (h : IsLength n) : UInt32.ofNat n ≠ missing := by
  intro hmissing
  have hn : n = missing.toNat := by rw [← hmissing, h.toNat_ofNat]
  unfold IsLength at h
  change n = 4294967295 at hn
  omega

/-- A number other than the one that stands for a missing text is the length of one. -/
lemma isLength_toNat {n : UInt32} (h : n ≠ missing) : IsLength n.toNat := by
  have hlt := n.toNat_lt
  have hne : n.toNat ≠ missing.toNat := fun heq => h (UInt32.toNat_inj.mp heq)
  unfold IsLength
  change n.toNat ≠ 4294967295 at hne
  omega

namespace Decoder

variable {ε δ α β : Type} {bs cs : Bytes} {a : α} {b : β} {d : Decoder ε α} {k : α → Decoder ε β}

/-- With `bs` in front of any other bytes the decoder yields `a` and stops behind `bs`. -/
def Reads (d : Decoder ε α) (bs : Bytes) (a : α) : Prop :=
  ∀ position rest, d ⟨position, bs ++ rest⟩ = .ok a ⟨position + bs.length, rest⟩

/-- If `bs` are all the bytes that are left, the decoder yields `a` and stops at their end. -/
def ReadsAll (d : Decoder ε α) (bs : Bytes) (a : α) : Prop :=
  ∀ position, d ⟨position, bs⟩ = .ok a ⟨position + bs.length, []⟩

/-- What is read off all the bytes there are is the value of the bytes. -/
lemma ReadsAll.decode (h : ReadsAll d bs a) : d.decode bs = .ok a := by
  rw [Decoder.decode, Cursor.start, h 0]

/-- If `bs` are all the bytes that are left, the decoder ends in the error `e`. -/
def FailsAll (d : Decoder ε α) (bs : Bytes) (e : ε) : Prop :=
  ∀ position, ∃ c, d ⟨position, bs⟩ = .error e c

/-- A decoder that fails on all bytes rejects them. -/
lemma FailsAll.decode {e : ε} (h : FailsAll d bs e) : d.decode bs = .error e := by
  obtain ⟨c, hc⟩ := h 0
  rw [Decoder.decode, Cursor.start, hc]

/-! ## Putting decoders together -/

lemma reads_pure (a : α) : Reads (pure a : Decoder ε α) [] a :=
  fun _ _ => rfl

/-- What is done with a value goes on behind the bytes of the value. -/
lemma Reads.run_bind (hd : Reads d bs a) (k : α → Decoder ε β) (position : ℕ)
    (rest : Bytes) : (d >>= k) ⟨position, bs ++ rest⟩ = k a ⟨position + bs.length, rest⟩ := by
  show EStateM.bind d k _ = _
  rw [EStateM.bind, hd position rest]

/-- Decoders read in turn. -/
lemma Reads.bind (hd : Reads d bs a) (hk : Reads (k a) cs b) : Reads (d >>= k) (bs ++ cs) b := by
  intro position rest
  rw [List.append_assoc, hd.run_bind, hk, List.length_append, Nat.add_assoc]

/-- The last one may read all that is left. -/
lemma Reads.bind_all (hd : Reads d bs a) (hk : ReadsAll (k a) cs b) :
    ReadsAll (d >>= k) (bs ++ cs) b := by
  intro position
  rw [hd.run_bind, hk, List.length_append, Nat.add_assoc]

/-- What is done with a value fails behind the bytes of the value. -/
lemma Reads.bind_failsAll {e : ε} (hd : Reads d bs a) (hk : FailsAll (k a) cs e) :
    FailsAll (d >>= k) (bs ++ cs) e := by
  intro position
  obtain ⟨c, hc⟩ := hk (position + bs.length)
  exact ⟨c, by rw [hd.run_bind, hc]⟩

/-- Nothing is done with the value of a decoder that fails. -/
lemma FailsAll.bind {e : ε} (hd : FailsAll d bs e) (k : α → Decoder ε β) :
    FailsAll (d >>= k) bs e := by
  intro position
  obtain ⟨c, hc⟩ := hd position
  refine ⟨c, ?_⟩
  show EStateM.bind d k _ = _
  rw [EStateM.bind, hc]

lemma failsAll_throw (bs : Bytes) (e : ε) : FailsAll (throw e : Decoder ε α) bs e :=
  fun position => ⟨⟨position, bs⟩, rfl⟩

/-- What is done at the end need not read anything. -/
lemma Reads.bind_nil (hd : Reads d bs a) (hk : Reads (k a) [] b) : Reads (d >>= k) bs b := by
  have hread := hd.bind hk
  rwa [List.append_nil] at hread

/-- A result may be changed. -/
lemma Reads.map (f : α → β) (hd : Reads d bs a) :
    Reads (do return f (← d)) bs (f a) :=
  hd.bind_nil (reads_pure (f a))

/-- Errors may be changed. -/
lemma Reads.mapError (f : ε → δ) (hd : Reads d bs a) :
    Reads (d.mapError f) bs a := by
  intro position rest
  rw [Decoder.mapError, hd position rest]

/-- What is read is all there is. -/
lemma Reads.all (h : Reads d bs a) : ReadsAll d bs a := by
  intro position
  have hrun := h position []
  rwa [List.append_nil] at hrun

/-- A decoder may look at everything that is left. -/
lemma readsAll_get {k : Cursor → Decoder ε α} (h : ∀ position, ReadsAll (k ⟨position, bs⟩) bs a) :
    ReadsAll (get >>= k) bs a :=
  fun position => h position position

/-- A decoder may ask for its position first. -/
lemma reads_position {k : ℕ → Decoder ε α} (h : ∀ position, Reads (k position) bs a) :
    Reads (position >>= k) bs a :=
  fun position rest => h position position rest

/-- A decoder may ask first how many bytes are left: at least those that it reads. -/
lemma reads_remaining {k : ℕ → Decoder ε α} (h : ∀ n, bs.length ≤ n → Reads (k n) bs a) :
    Reads (remaining >>= k) bs a := by
  intro position rest
  have hlength : bs.length ≤ (bs ++ rest).length := by simp
  exact h _ hlength position rest

/-- A bound above the number of bytes suffices. -/
lemma reads_bounded {d : ℕ → Decoder ε α} (h : ∀ depth, bs.length < depth → Reads (d depth) bs a) :
    Reads (bounded d) bs a :=
  reads_remaining fun n hn => h (n + 1) (Nat.lt_succ_of_le hn)

/-- Values in a row are read off their bytes in a row. -/
lemma reads_replicate {parts : List Bytes} {as : List α}
    (h : List.Forall₂ (Reads d) parts as) : Reads (replicate d as.length) parts.flatten as := by
  induction h with
  | nil => exact reads_pure []
  | @cons bs a parts as hhead _ ih =>
    have htail : Reads (do return a :: (← replicate d as.length)) parts.flatten (a :: as) :=
      ih.map (a :: ·)
    exact Reads.bind (k := fun a => do return a :: (← replicate d as.length)) hhead htail

/-! ## Bytes, numbers and texts -/

/-- Bytes are read as they are. -/
lemma reads_bytes (bs : Bytes) : Reads (bytes bs.length) bs bs := by
  intro position rest
  simp [bytes]

/-- Little-endian numbers are read. -/
lemma reads_number {size n : ℕ} (h : n < 256 ^ size) :
    Reads (number size) (littleEndian size n) n := by
  have hbytes := reads_bytes (littleEndian size n)
  rw [length_littleEndian] at hbytes
  have hread := hbytes.map ofLittleEndian
  rwa [ofLittleEndian_littleEndian h] at hread

lemma reads_word8 (n : UInt8) : Reads word8 [n] n := by
  have hsmall : n.toNat < 256 ^ 1 := n.toNat_lt
  have hbytes : littleEndian 1 n.toNat = [n] := by
    simp [littleEndian, Nat.mod_eq_of_lt n.toNat_lt]
  have hread := (reads_number hsmall).map UInt8.ofNat
  rwa [hbytes, UInt8.ofNat_toNat] at hread

lemma reads_word16 (n : UInt16) : Reads word16 (Binary.word16 n) n := by
  have hsmall : n.toNat < 256 ^ 2 := n.toNat_lt
  have hread := (reads_number hsmall).map UInt16.ofNat
  rwa [UInt16.ofNat_toNat] at hread

lemma reads_word32 (n : UInt32) : Reads word32 (Binary.word32 n) n := by
  have hsmall : n.toNat < 256 ^ 4 := n.toNat_lt
  have hread := (reads_number hsmall).map UInt32.ofNat
  rwa [UInt32.ofNat_toNat] at hread

lemma reads_word64 (n : UInt64) : Reads word64 (Binary.word64 n) n := by
  have hsmall : n.toNat < 256 ^ 8 := n.toNat_lt
  have hread := (reads_number hsmall).map UInt64.ofNat
  rwa [UInt64.ofNat_toNat] at hread

/-- Counted bytes are read. -/
lemma reads_blob (h : IsCount bs.length) : Reads blob (Binary.blob bs) bs := by
  have hbytes : Reads (bytes (UInt32.ofNat bs.length).toNat) bs bs := by
    rw [h.toNat_ofNat]
    exact reads_bytes bs
  exact (reads_word32 _).bind hbytes

lemma reads_nullableString_none : Reads nullableString (Binary.nullableString none) none := by
  refine (reads_word32 missing).bind_nil ?_
  rw [if_pos rfl]
  exact reads_pure none

lemma reads_nullableString_some {s : String} (h : IsLength (utf8 s).length) :
    Reads nullableString (Binary.nullableString (some s)) (some s) := by
  have hbytes : Reads (bytes (UInt32.ofNat (utf8 s).length).toNat) (utf8 s) (utf8 s) := by
    rw [h.toNat_ofNat]
    exact reads_bytes (utf8 s)
  refine (reads_word32 (UInt32.ofNat (utf8 s).length)).bind ?_
  rw [if_neg h.ofNat_ne_missing]
  refine reads_position fun start => ?_
  refine hbytes.bind_nil ?_
  rw [fromUTF8?_utf8]
  exact reads_pure (some s)

/-- Strings with a length are read. -/
lemma reads_string {s : String} (h : IsLength (utf8 s).length) :
    Reads string (Binary.string s) s := by
  have hread := (reads_nullableString_some h).map fun text : Option String => text.getD ""
  exact hread

/-- Indices that may be missing are read. -/
lemma reads_optionalIndex {index : Option UInt32} (h : index ≠ some missing) :
    Reads optionalIndex (Binary.optionalIndex index) index := by
  have hread := (reads_word32 (index.getD missing)).map fun i =>
    if i = missing then none else some i
  cases index with
  | none => exact hread
  | some i =>
    have hi : i ≠ missing := fun hmissing => h (congrArg some hmissing)
    rwa [Option.getD_some, if_neg hi] at hread

/-- Counted items are read one by one. -/
lemma reads_counted {d : Decoder DecodeError α} {parts : List Bytes} {as : List α}
    (hlength : IsCount as.length) (h : List.Forall₂ (Reads d) parts as) :
    Reads (counted d) (count as.length ++ parts.flatten) as := by
  have hitems : Reads (replicate d (UInt32.ofNat as.length).toNat) parts.flatten as := by
    rw [hlength.toNat_ofNat]
    exact reads_replicate h
  exact (reads_word32 _).bind hitems

end Decoder

end ScriptCompiler.Binary
