import ScriptCompiler.Attribute.Blob
import ScriptCompiler.Proofs.Codec.Reading

/-!
# Attribute arguments read back

Arguments that could be written are read back as they were.  A value is written as an element type
that someone else chose: the parameter, the array around it, or, for a boxed or named one, the
value itself.  The reader knows the same element type, or has just read it, so all statements are
about a value and any element type that it can be written as.

A boxed value needs a level of the bound on the depth of boxing.  It also takes at least one byte
more than what it boxes, so the number of bytes of a value is a bound that never runs out.
-/

namespace ScriptCompiler.Attribute

open Binary
open Binary.Decoder
open Metadata (Signature)

/-! ## What a 32-bit length can hold -/

/-- The names of all enumerations fit behind a length. -/
def ElementType.Fits : ElementType → Prop
  | .enum typeName underlying => IsLength (utf8 typeName).length ∧ underlying.Fits
  | .array element => element.Fits
  | _ => True

instance ElementType.decidableFits : (t : ElementType) → Decidable t.Fits
  | .enum _ underlying => @instDecidableAnd _ _ _ underlying.decidableFits
  | .array element => element.decidableFits
  | .boolean | .char | .integer _ | .single | .double | .string | .type | .boxed => isTrue trivial

mutual

/-- All texts, names and arrays inside the value fit behind a length. -/
def Value.Fits : Value → Prop
  | .string s | .type s => IsLength (utf8 s).length
  | .enum typeName value => IsLength (utf8 typeName).length ∧ value.Fits
  | .array element values => element.Fits ∧ IsLength values.length ∧ Value.AllFit values
  | _ => True

/-- All values of a list fit. -/
def Value.AllFit : List Value → Prop
  | [] => True
  | v :: rest => v.Fits ∧ Value.AllFit rest

end

mutual

instance Value.decidableFits : (v : Value) → Decidable v.Fits
  | .string s | .type s => inferInstanceAs (Decidable (IsLength (utf8 s).length))
  | .enum _ value => @instDecidableAnd _ _ _ value.decidableFits
  | .array _ values =>
    @instDecidableAnd _ _ _ (@instDecidableAnd _ _ _ (Value.decidableAllFit values))
  | .null | .boolean _ | .char _ | .integer _ _ | .single _ | .double _ => isTrue trivial

instance Value.decidableAllFit : (values : List Value) → Decidable (Value.AllFit values)
  | [] => isTrue trivial
  | v :: rest => @instDecidableAnd _ _ v.decidableFits (Value.decidableAllFit rest)

end

/-- All values and names of the arguments fit, and so does the number of named ones. -/
structure Arguments.Fit (a : Arguments) : Prop where
  fixed : Value.AllFit a.fixed
  named : ∀ n ∈ a.named, IsLength (utf8 n.name).length ∧ n.value.Fits
  count : a.named.length ≤ 65535

lemma Value.Fits.elementType : ∀ {v : Value}, v.Fits → v.elementType.Fits
  | .enum _ value, ⟨hname, hvalue⟩ => ⟨hname, Value.Fits.elementType (v := value) hvalue⟩
  | .array _ _, ⟨helement, _⟩ => helement
  | .null, _ | .boolean _, _ | .char _, _ | .integer _ _, _ | .single _, _ | .double _, _
  | .string _, _ | .type _, _ => trivial

/-! ## Element types -/

namespace ElementType

lemma length_encode_pos (t : ElementType) : 0 < t.encode.length := by
  cases t <;> simp [encode]

/-- An element type that is only a tag. -/
lemma reads_tag {t : ElementType} {tag : UInt8} (h : ofTag? tag = some t) (depth : ℕ) :
    Reads (decodeWithin (depth + 1)) [tag] t := by
  refine reads_position fun offset => ((reads_word8 tag).mapError BlobError.decode).bind_nil ?_
  rw [h]
  exact reads_pure t

lemma reads_enum {typeName : String} {underlying : ElementType} {depth : ℕ}
    (hname : IsLength (utf8 typeName).length)
    (hunderlying : Reads (decodeWithin depth) underlying.encode underlying) :
    Reads (decodeWithin (depth + 1)) (encode (.enum typeName underlying))
      (.enum typeName underlying) := by
  refine reads_position fun offset => ((reads_word8 0x55).mapError BlobError.decode).bind ?_
  exact ((reads_string hname).mapError BlobError.decode).bind
    (hunderlying.map (ElementType.enum typeName))

lemma reads_array {element : ElementType} {depth : ℕ}
    (helement : Reads (decodeWithin depth) element.encode element) :
    Reads (decodeWithin (depth + 1)) (encode (.array element)) (.array element) := by
  refine reads_position fun offset => ((reads_word8 0x1d).mapError BlobError.decode).bind ?_
  exact helement.map ElementType.array

/-- Every level of an element type takes a byte, so its number of bytes bounds its depth. -/
lemma reads_decodeWithin {t : ElementType} (ht : t.Fits) {depth : ℕ}
    (hdepth : t.encode.length ≤ depth) : Reads (decodeWithin depth) t.encode t := by
  obtain ⟨depth, rfl⟩ : ∃ n, depth = n + 1 :=
    Nat.exists_eq_add_one.2 (Nat.lt_of_lt_of_le t.length_encode_pos hdepth)
  induction t generalizing depth with
  | integer kind =>
    have htag : ofTag? kind.tag = some (.integer kind) := by cases kind <;> rfl
    exact reads_tag htag depth
  | enum typeName underlying ih =>
    have hbytes : underlying.encode.length ≤ depth := by
      simp only [encode, List.length_cons, List.length_append] at hdepth
      omega
    obtain ⟨depth, rfl⟩ : ∃ n, depth = n + 1 :=
      Nat.exists_eq_add_one.2 (Nat.lt_of_lt_of_le underlying.length_encode_pos hbytes)
    exact reads_enum ht.1 (ih ht.2 depth hbytes)
  | array element ih =>
    have hbytes : element.encode.length ≤ depth := by
      simp only [encode, List.length_cons] at hdepth
      omega
    obtain ⟨depth, rfl⟩ : ∃ n, depth = n + 1 :=
      Nat.exists_eq_add_one.2 (Nat.lt_of_lt_of_le element.length_encode_pos hbytes)
    exact reads_array (ih ht depth hbytes)
  | boolean | char | single | double | string | type | boxed => exact reads_tag rfl depth

lemma reads_decode {t : ElementType} (ht : t.Fits) : Reads decode t.encode t :=
  reads_bounded fun _ hdepth => reads_decodeWithin ht hdepth.le

end ElementType

/-! ## Values -/

/-- What is written behind fixed bytes was written. -/
lemma exists_of_prepend_eq_ok {front bs : Bytes} {x : Except BlobError Bytes}
    (h : (do return front ++ (← x)) = Except.ok bs) : ∃ cs, x = .ok cs ∧ bs = front ++ cs := by
  cases x with
  | error e => cases h
  | ok cs =>
    cases h
    exact ⟨cs, rfl, rfl⟩

/-- Of two parts written one after the other, both were written. -/
lemma exists_of_append_eq_ok {bs : Bytes} {x y : Except BlobError Bytes}
    (h : (do return (← x) ++ (← y)) = Except.ok bs) :
    ∃ front cs, x = .ok front ∧ y = .ok cs ∧ bs = front ++ cs := by
  cases x with
  | error e => cases h
  | ok front =>
    obtain ⟨cs, hcs, rfl⟩ := exists_of_prepend_eq_ok h
    exact ⟨front, cs, rfl, hcs, rfl⟩

namespace Value

/-- Wherever the value is written plainly, as whatever element type, it is read back. -/
def ReadsPlain (v : Value) : Prop :=
  ∀ ⦃t : ElementType⦄ ⦃bs : Bytes⦄ ⦃depth : ℕ⦄, v.encodePlain t = .ok bs → bs.length ≤ depth →
    Reads (decodeWith (decodeBoxed depth) t) bs v

/-- A value that may be boxed is read back.  The element type in front of a boxed one takes the
byte that pays for the level of boxing. -/
lemma ReadsPlain.boxing {v : Value} (hplain : v.ReadsPlain) (hv : v.Fits) {t : ElementType}
    {bs : Bytes} {depth : ℕ} (h : boxing t v.elementType v.encodePlain = .ok bs)
    (hdepth : bs.length ≤ depth) : Reads (decodeWith (decodeBoxed depth) t) bs v := by
  unfold Attribute.boxing at h
  by_cases ht : t = .boxed
  · rw [if_pos ht] at h
    obtain ⟨cs, hcs, rfl⟩ := exists_of_prepend_eq_ok h
    have hpos := v.elementType.length_encode_pos
    rw [List.length_append] at hdepth
    obtain ⟨depth, rfl⟩ : ∃ n, depth = n + 1 := Nat.exists_eq_add_one.2 (by omega)
    rw [ht]
    exact (ElementType.reads_decode hv.elementType).bind (hplain hcs (by omega))
  · rw [if_neg ht] at h
    exact hplain h hdepth

/-- A value that can be written plainly as one element type only. -/
lemma readsPlain_of_only {v : Value} {only : ElementType} {written : Except BlobError Bytes}
    {mismatch : ElementType → BlobError}
    (h : ∀ t, v.encodePlain t = if t = only then written else .error (mismatch t))
    (hread : ∀ {bs : Bytes} {depth : ℕ}, written = .ok bs → bs.length ≤ depth →
      Reads (decodeWith (decodeBoxed depth) only) bs v) : v.ReadsPlain := by
  intro t bs depth hwritten hdepth
  rw [h t] at hwritten
  by_cases ht : t = only
  · rw [if_pos ht] at hwritten
    rw [ht]
    exact hread hwritten hdepth
  · rw [if_neg ht] at hwritten
    cases hwritten

/-- A missing text is read as a missing value. -/
lemma reads_decodeText_none (f : String → Value) :
    Reads (decodeText f) (Binary.nullableString none) .null :=
  (reads_nullableString_none.mapError BlobError.decode).bind_nil (reads_pure Value.null)

lemma reads_decodeText_some {s : String} (hs : IsLength (utf8 s).length) (f : String → Value) :
    Reads (decodeText f) (Binary.string s) (f s) :=
  ((reads_nullableString_some hs).mapError BlobError.decode).bind_nil (reads_pure (f s))

/-- A missing value can be written as a text, a type or an array. -/
lemma readsPlain_null : Value.null.ReadsPlain := by
  intro t bs depth h _
  cases t with
  | string =>
    cases h
    exact reads_decodeText_none Value.string
  | type =>
    cases h
    exact reads_decodeText_none Value.type
  | array element =>
    cases h
    refine ((reads_word32 missing).mapError BlobError.decode).bind_nil ?_
    rw [if_pos rfl]
    exact reads_pure Value.null
  | _ => cases h

lemma readsPlain_boolean (b : Bool) : (Value.boolean b).ReadsPlain := by
  refine readsPlain_of_only (fun t => rfl) fun h _ => ?_
  cases h
  refine ((reads_word8 _).mapError BlobError.decode).bind_nil ?_
  cases b with
  | false => exact reads_pure (Value.boolean false)
  | true => exact reads_pure (Value.boolean true)

lemma readsPlain_char (c : Char) : (Value.char c).ReadsPlain := by
  refine readsPlain_of_only (fun t => rfl) fun h _ => ?_
  by_cases hc : c.toNat < 2 ^ 16
  · rw [if_pos hc] at h
    cases h
    have hvalid : c.toNat.isValidChar := c.valid
    refine ((reads_number hc).mapError BlobError.decode).bind_nil ?_
    rw [if_pos hvalid, Char.ofNat_toNat]
    exact reads_pure (Value.char c)
  · rw [if_neg hc] at h
    cases h

lemma readsPlain_integer (kind : IntegerKind) (bits : BitVec (8 * kind.size)) :
    (Value.integer kind bits).ReadsPlain := by
  refine readsPlain_of_only (fun t => rfl) fun h _ => ?_
  cases h
  have hsmall : bits.toNat < 256 ^ kind.size := by
    rw [show 256 = 2 ^ 8 from rfl, ← pow_mul]
    exact bits.isLt
  have hread := ((reads_number hsmall).mapError BlobError.decode).map fun n =>
    Value.integer kind (BitVec.ofNat _ n)
  rwa [BitVec.ofNat_toNat, BitVec.setWidth_eq] at hread

lemma readsPlain_single (bits : UInt32) : (Value.single bits).ReadsPlain := by
  refine readsPlain_of_only (fun t => rfl) fun h _ => ?_
  cases h
  exact ((reads_word32 bits).mapError BlobError.decode).map Value.single

lemma readsPlain_double (value : Double) : (Value.double value).ReadsPlain := by
  refine readsPlain_of_only (fun t => rfl) fun h _ => ?_
  cases h
  exact ((reads_word64 value.bits).mapError BlobError.decode).map fun bits => Value.double ⟨bits⟩

lemma readsPlain_string {s : String} (hs : IsLength (utf8 s).length) :
    (Value.string s).ReadsPlain := by
  refine readsPlain_of_only (fun t => rfl) fun h _ => ?_
  cases h
  exact reads_decodeText_some hs Value.string

lemma readsPlain_type {s : String} (hs : IsLength (utf8 s).length) :
    (Value.type s).ReadsPlain := by
  refine readsPlain_of_only (fun t => rfl) fun h _ => ?_
  cases h
  exact reads_decodeText_some hs Value.type

/-- A member of an enumeration is written as its value, which may be boxed. -/
lemma ReadsPlain.enum {value : Value} (hplain : value.ReadsPlain) (hvalue : value.Fits)
    (typeName : String) : (Value.enum typeName value).ReadsPlain := by
  intro t bs depth h hdepth
  cases t with
  | enum name underlying =>
    change (if name = typeName then Attribute.boxing underlying value.elementType value.encodePlain
      else _) = .ok bs at h
    by_cases hname : name = typeName
    · rw [if_pos hname] at h
      rw [hname]
      exact (hplain.boxing hvalue h hdepth).map (Value.enum typeName)
    · rw [if_neg hname] at h
      cases h
  | _ => cases h

/-- An array is written as its elements behind their number. -/
lemma readsPlain_array {element : ElementType} {values : List Value}
    (hlength : IsLength values.length)
    (hvalues : ∀ {bs : Bytes} {depth : ℕ}, encodeSequence values element = .ok bs →
      bs.length ≤ depth → Reads (replicate (decodeWith (decodeBoxed depth) element) values.length)
        bs values) : (Value.array element values).ReadsPlain := by
  refine readsPlain_of_only (fun t => rfl) fun h hdepth => ?_
  obtain ⟨cs, hcs, rfl⟩ := exists_of_prepend_eq_ok h
  rw [List.length_append] at hdepth
  refine ((reads_word32 _).mapError BlobError.decode).bind ?_
  rw [if_neg hlength.ofNat_ne_missing, hlength.toNat_ofNat]
  exact (hvalues hcs (by omega)).map (Value.array element)

mutual

/-- Every value that fits is read back from where it was written plainly. -/
theorem readsPlain : ∀ {v : Value}, v.Fits → v.ReadsPlain
  | .null, _ => readsPlain_null
  | .boolean b, _ => readsPlain_boolean b
  | .char c, _ => readsPlain_char c
  | .integer kind bits, _ => readsPlain_integer kind bits
  | .single bits, _ => readsPlain_single bits
  | .double value, _ => readsPlain_double value
  | .string _, hs => readsPlain_string hs
  | .type _, hs => readsPlain_type hs
  | .enum typeName _, hv => (readsPlain hv.2).enum hv.2 typeName
  | .array _ _, hv => readsPlain_array hv.2.1 fun h hdepth => reads_sequence hv.2.2 h hdepth

/-- Values in a row are read back. -/
theorem reads_sequence : ∀ {values : List Value}, AllFit values → ∀ {t : ElementType} {bs : Bytes}
    {depth : ℕ}, encodeSequence values t = .ok bs → bs.length ≤ depth →
    Reads (replicate (decodeWith (decodeBoxed depth) t) values.length) bs values
  | [], _, _, _, _, h, _ => by
    cases h
    exact reads_pure []
  | v :: rest, hfit, t, bs, depth, h, hdepth => by
    obtain ⟨front, cs, hfront, hcs, rfl⟩ := exists_of_append_eq_ok h
    rw [List.length_append] at hdepth
    have hhead : Reads (decodeWith (decodeBoxed depth) t) front v :=
      (readsPlain hfit.1).boxing hfit.1 hfront (by omega)
    exact hhead.bind ((reads_sequence hfit.2 hcs (by omega)).map (v :: ·))

end

/-- Every value that fits is read back from where it was written. -/
lemma reads_decode {v : Value} (hv : v.Fits) {t : ElementType} {bs : Bytes}
    (h : v.encodeAs t = .ok bs) : Reads (decode t) bs v :=
  reads_bounded fun _ hdepth => (readsPlain hv).boxing hv h hdepth.le

end Value

/-! ## Arguments -/

/-- The arguments of a constructor are read back, each as the element type of its parameter. -/
lemma reads_decodeFixed {parameters : List Signature} {values : List Value} {bs : Bytes}
    (hlength : parameters.length = values.length) (hfit : Value.AllFit values)
    (h : encodeFixed parameters values = .ok bs) : Reads (decodeFixed parameters) bs values := by
  induction parameters generalizing values bs with
  | nil =>
    obtain rfl : values = [] := List.length_eq_zero_iff.1 hlength.symm
    cases h
    exact reads_pure []
  | cons s parameters ih =>
    obtain ⟨v, values, rfl⟩ : ∃ v rest, values = v :: rest :=
      List.exists_cons_of_length_eq_add_one hlength.symm
    rw [encodeFixed] at h
    rw [decodeFixed]
    cases ht : parameterType s with
    | error e =>
      rw [ht] at h
      cases h
    | ok t =>
      rw [ht] at h
      obtain ⟨front, cs, hfront, hcs, rfl⟩ := exists_of_append_eq_ok h
      have hrest := ih (Nat.succ.inj hlength) hfit.2 hcs
      exact (Value.reads_decode hfit.1 hfront).bind (hrest.map (v :: ·))

/-- A named argument is written behind the element type of its value, which is read first. -/
lemma NamedArgument.reads_decode {a : NamedArgument} {bs : Bytes}
    (hname : IsLength (utf8 a.name).length) (hvalue : a.value.Fits) (h : a.encode = .ok bs) :
    Reads NamedArgument.decode bs a := by
  obtain ⟨cs, hcs, rfl⟩ := exists_of_prepend_eq_ok h
  have hrest : Reads
      (do
        let t ← ElementType.decode
        let name ← Decoder.string.mapError .decode
        let value ← Value.decode t
        return { kind := a.kind, name, value })
      (a.value.elementType.encode ++ (Binary.string a.name ++ cs)) a :=
    (ElementType.reads_decode hvalue.elementType).bind
      (((reads_string hname).mapError BlobError.decode).bind
        ((Value.reads_decode hvalue hcs).map (NamedArgument.mk a.kind a.name)))
  rw [List.cons_append, List.cons_append, List.append_assoc]
  refine reads_position fun offset => ((reads_word8 a.kind.tag).mapError BlobError.decode).bind ?_
  cases hkind : a.kind with
  | field | property =>
    rw [hkind] at hrest
    exact hrest

lemma reads_replicate_named {named : List NamedArgument} {bs : Bytes}
    (hfit : ∀ a ∈ named, IsLength (utf8 a.name).length ∧ a.value.Fits)
    (h : encodeNamed named = .ok bs) :
    Reads (Decoder.replicate NamedArgument.decode named.length) bs named := by
  induction named generalizing bs with
  | nil =>
    cases h
    exact reads_pure []
  | cons a named ih =>
    obtain ⟨front, cs, hfront, hcs, rfl⟩ := exists_of_append_eq_ok h
    have ha := hfit a List.mem_cons_self
    have hrest := ih (fun b hb => hfit b (List.mem_cons_of_mem a hb)) hcs
    exact (NamedArgument.reads_decode ha.1 ha.2 hfront).bind (hrest.map (a :: ·))

/-- The number of named arguments is always written, so something is left to read. -/
lemma reads_decodeNamed {named : List NamedArgument} {bs : Bytes}
    (hfit : ∀ a ∈ named, IsLength (utf8 a.name).length ∧ a.value.Fits)
    (hcount : named.length ≤ 65535) (h : encodeNamed named = .ok bs) :
    Reads decodeNamed (word16 (UInt16.ofNat named.length) ++ bs) named := by
  refine reads_remaining fun n hn => ?_
  have hleft : n ≠ 0 := by
    simp only [Binary.word16, List.length_append, length_littleEndian] at hn
    omega
  have hnumber : (UInt16.ofNat named.length).toNat = named.length :=
    UInt16.toNat_ofNat_of_lt' (by change named.length < 65536; omega)
  rw [if_neg hleft]
  refine ((reads_word16 _).mapError BlobError.decode).bind ?_
  rw [hnumber]
  exact reads_replicate_named hfit h

namespace Arguments

variable {a : Arguments}

/-- What was written is the leading bytes, the arguments of the constructor and the named ones. -/
lemma exists_of_encode_eq_ok {parameters : List Signature} {bs : Bytes}
    (h : a.encode parameters = .ok bs) :
    parameters.length = a.fixed.length ∧ ∃ fixed named, encodeFixed parameters a.fixed = .ok fixed ∧
      encodeNamed a.named = .ok named ∧
      bs = word16 prolog ++ (fixed ++ (word16 (UInt16.ofNat a.named.length) ++ named)) := by
  unfold encode at h
  by_cases hlength : parameters.length = a.fixed.length
  · rw [if_neg (not_not.2 hlength)] at h
    cases hfixed : encodeFixed parameters a.fixed with
    | error e =>
      rw [hfixed] at h
      cases h
    | ok fixed =>
      cases hnamed : encodeNamed a.named with
      | error e =>
        rw [hfixed, hnamed] at h
        cases h
      | ok named =>
        rw [hfixed, hnamed] at h
        cases h
        exact ⟨hlength, fixed, named, rfl, rfl, by simp only [List.append_assoc]⟩
  · rw [if_pos hlength] at h
    cases h

/-- The bytes of arguments that fit are read to their end as the arguments. -/
lemma readsAll_decoder {parameters : List Signature} {blob : Bytes} (ha : a.Fit)
    (h : a.encode parameters = .ok blob) : ReadsAll (decoder parameters) blob a := by
  obtain ⟨hlength, fixed, named, hfixed, hnamed, rfl⟩ := exists_of_encode_eq_ok h
  have hfirst := reads_decodeFixed hlength ha.fixed hfixed
  have hsecond := reads_decodeNamed ha.named ha.count hnamed
  refine ((reads_word16 prolog).mapError BlobError.decode).bind_all ?_
  rw [if_neg (not_not.2 rfl)]
  refine hfirst.bind_all ?_
  rw [← List.append_nil named, ← List.append_assoc]
  refine hsecond.bind_all (readsAll_get fun _ => ?_)
  exact (reads_pure a).all

/-- The bytes that are written are never empty, not even for no arguments. -/
lemma isEmpty_of_encode {parameters : List Signature} {blob : Bytes}
    (h : a.encode parameters = .ok blob) : blob.isEmpty = false := by
  obtain ⟨-, fixed, named, -, -, rfl⟩ := exists_of_encode_eq_ok h
  rfl

/-- Arguments that could be written for the parameters of a constructor are read back from their
bytes: the same values of the constructor, and the same kinds, names and values of the named ones,
in order. -/
theorem decode_of_encode {a : Arguments} {parameters : List Signature} {blob : Bytes} (ha : a.Fit)
    (h : a.encode parameters = .ok blob) : decode blob parameters = .ok a := by
  rw [decode, isEmpty_of_encode h, Bool.false_and]
  exact (readsAll_decoder ha h).decode

/-- A missing type, a boxed array of boxed values with a missing one and a member of an enumeration
inside, and a named argument that is missing. -/
def sample : Arguments where
  fixed := [.null, .array .boxed [.null, .enum "Acme.Color" (.integer .u8 7),
    .array (.enum "Acme.Color" .boxed) [.enum "Acme.Color" (.string "red")], .char 'é']]
  named :=
    [⟨.property, "Tag", .null⟩,
      ⟨.field, "Sizes", .array (.integer .i16) [.integer .i16 (-2)]⟩]

/-- The parameters of a constructor that takes the sample. -/
def sampleParameters : List Signature :=
  [.simple "System.Type", .simple "System.Object"]

lemma fit_sample : sample.Fit :=
  ⟨by decide, by decide, by decide⟩

/-- The sample can be written, and is read back. -/
theorem decode_of_encode_sample : ∃ blob, sample.encode sampleParameters = .ok blob ∧
    decode blob sampleParameters = .ok sample :=
  ⟨_, rfl, decode_of_encode fit_sample rfl⟩

end Arguments

end ScriptCompiler.Attribute
