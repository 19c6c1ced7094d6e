import ScriptCompiler.Proofs.Codec.Acceptance
import ScriptCompiler.Proofs.Codec.Arguments

/-!
# Accepted arguments have a canonical form

The reader takes more bytes than the writer ever writes: every byte but zero is true, a value may
be boxed over and over, a missing value may be tagged as a type or as an array of whatever element
type, the name of an enumeration may be missing, and the number of named arguments may be left out.
Whatever it takes, the arguments that it yields can be written for the same parameters, and the
bytes that are written are read as the same arguments.

The element type that a value was read as need not be the one that the writer computes from the
value.  So a value that was read is `Accepted`: it can be written both as the element type that it
was read as and as its own, and all its texts and arrays fit behind a length.
-/

namespace ScriptCompiler.Attribute

open Binary
open Binary.Decoder
open Metadata (Signature)

variable {t : ElementType}

/-! ## Element types -/

namespace ElementType

/-- What is only a tag has no names. -/
lemma fits_of_ofTag? {tag : UInt8} (h : ofTag? tag = some t) : t.Fits := by
  unfold ofTag? at h
  split at h
  · cases h
    trivial
  · split at h <;> cases h <;> trivial

/-- The names in an element type that is read fit behind a length. -/
lemma ensures_decodeWithin (depth : ℕ) : Ensures (decodeWithin depth) ElementType.Fits := by
  induction depth with
  | zero =>
    intro c t c' h
    have hend := mapError_eq_ok h
    cases hend
  | succ depth ih =>
    refine ensures_bind fun offset => ensures_bind fun tag => ?_
    cases htag : ofTag? tag with
    | some t => exact ensures_pure (fits_of_ofTag? htag)
    | none =>
      dsimp only
      by_cases henum : tag = 0x55
      · rw [if_pos henum]
        refine (ensures_string.mapError _).bind fun name hname => ?_
        exact ih.bind fun underlying hunderlying => ensures_pure ⟨hname, hunderlying⟩
      rw [if_neg henum]
      by_cases harray : tag = 0x1d
      · rw [if_pos harray]
        exact ih.bind fun element helement => ensures_pure helement
      · rw [if_neg harray]
        exact ensures_throw _

lemma ensures_decode : Ensures decode ElementType.Fits :=
  ensures_bounded ensures_decodeWithin

/-- No parameter is an enumeration, so there are no names to fit. -/
lemma fits_of_ofParameter (s : Signature) :
    ∀ {t : ElementType}, ofParameter s = .ok t → t.Fits := by
  fun_induction ofParameter s with
  | case1 name =>
    rintro t ⟨⟩
    unfold ofName
    split
    · trivial
    · split <;> trivial
  | case2 element ih =>
    intro t h
    cases helement : ofParameter element with
    | error e =>
      rw [helement] at h
      cases h
    | ok inner =>
      rw [helement] at h
      cases h
      have hinner : inner.Fits := ih helement
      exact hinner
  | case3 => exact fun h => by cases h
  | case4 => exact fun h => by cases h

end ElementType

lemma fits_of_parameterType {s : Signature} (h : parameterType s = .ok t) :
    t.Fits := by
  unfold parameterType at h
  cases hs : ElementType.ofParameter s with
  | error e =>
    rw [hs] at h
    cases h
  | ok t' =>
    rw [hs] at h
    cases h
    exact ElementType.fits_of_ofParameter s hs

/-! ## Values -/

namespace Value

/-- The value can be written as the element type. -/
def Writable (v : Value) (t : ElementType) : Prop :=
  ∃ bs, v.encodeAs t = .ok bs

/-- What is true of every value that is read as the element type: it fits, and it can be written
both as this element type and as its own. -/
structure Accepted (t : ElementType) (v : Value) : Prop where
  fits : v.Fits
  as_read : v.Writable t
  as_own : v.Writable v.elementType

/-- No value is boxed by itself. -/
lemma elementType_ne_boxed (v : Value) : v.elementType ≠ .boxed := by
  cases v <;> exact fun h => by cases h

lemma encodeAs_of_ne_boxed {v : Value} (ht : t ≠ .boxed) :
    v.encodeAs t = v.encodePlain t :=
  if_neg ht

/-- A value that can be written as its own element type can be written behind it. -/
lemma Writable.boxed {v : Value} (h : v.Writable v.elementType) : v.Writable .boxed := by
  obtain ⟨bs, hbs⟩ := h
  rw [encodeAs_of_ne_boxed v.elementType_ne_boxed] at hbs
  refine ⟨v.elementType.encode ++ bs, ?_⟩
  rw [encodeAs, boxing, if_pos rfl, hbs]
  rfl

lemma Accepted.boxed {v : Value} (h : Accepted t v) : Accepted .boxed v where
  fits := h.fits
  as_read := h.as_own.boxed
  as_own := h.as_own

/-- A value that is read as its own element type. -/
lemma accepted_of_own (v : Value) {bs : Bytes} (hfits : v.Fits)
    (h : v.encodePlain v.elementType = .ok bs) : Accepted v.elementType v := by
  have hwritable : v.Writable v.elementType :=
    ⟨bs, by rw [encodeAs_of_ne_boxed v.elementType_ne_boxed, h]⟩
  exact ⟨hfits, hwritable, hwritable⟩

/-- A missing value counts as a text by itself, whatever it was tagged as. -/
lemma accepted_null (h : Value.null.Writable t) : Accepted t .null where
  fits := trivial
  as_read := h
  as_own := ⟨word32 missing, rfl⟩

/-- A member of an enumeration is written as its value, boxed or not. -/
lemma Accepted.enum {underlying : ElementType} {v : Value} (h : Accepted underlying v)
    {typeName : String} (hname : IsLength (utf8 typeName).length) :
    Accepted (.enum typeName underlying) (.enum typeName v) := by
  have hwritable : ∀ t, v.Writable t → (Value.enum typeName v).Writable (.enum typeName t) := by
    rintro t ⟨bs, hbs⟩
    refine ⟨bs, ?_⟩
    rw [encodeAs_of_ne_boxed (fun heq => by cases heq)]
    change (if typeName = typeName then v.encodeAs t else _) = _
    rw [if_pos rfl, hbs]
  exact ⟨⟨hname, h.fits⟩, hwritable _ h.as_read, hwritable _ h.as_own⟩

lemma allFit_of_forall {values : List Value} (h : ∀ v ∈ values, v.Fits) : AllFit values := by
  induction values with
  | nil => trivial
  | cons v values ih =>
    obtain ⟨hv, hvalues⟩ := List.forall_mem_cons.mp h
    exact ⟨hv, ih hvalues⟩

/-- Values that can be written one by one can be written in a row. -/
lemma exists_encodeSequence {values : List Value}
    (h : ∀ v ∈ values, v.Writable t) : ∃ bs, encodeSequence values t = .ok bs := by
  induction values with
  | nil => exact ⟨[], rfl⟩
  | cons v values ih =>
    obtain ⟨⟨front, hfront⟩, hvalues⟩ := List.forall_mem_cons.mp h
    obtain ⟨bs, hbs⟩ := ih hvalues
    refine ⟨front ++ bs, ?_⟩
    change boxing t v.elementType v.encodePlain = .ok front at hfront
    rw [encodeSequence, hfront, hbs]
    rfl

/-- An array keeps the element type of its elements, so it is read as its own element type. -/
lemma accepted_array {element : ElementType} {values : List Value} (helement : element.Fits)
    (hlength : IsLength values.length) (h : ∀ v ∈ values, Accepted element v) :
    Accepted (.array element) (.array element values) := by
  obtain ⟨bs, hbs⟩ := exists_encodeSequence fun v hv => (h v hv).as_read
  have hfits : (Value.array element values).Fits :=
    ⟨helement, hlength, allFit_of_forall fun v hv => (h v hv).fits⟩
  have hencode : (Value.array element values).encodePlain (.array element) =
      .ok (count values.length ++ bs) := by
    change (if ElementType.array element = .array element then
      (do return count values.length ++ (← encodeSequence values element)) else _) = _
    rw [if_pos rfl, hbs]
    rfl
  exact accepted_of_own (.array element values) hfits hencode

/-! ## Reading values -/

/-- A text that is read, or a missing one. -/
lemma ensures_decodeText {f : String → Value}
    (hmissing : Value.null.Writable t)
    (htext : ∀ s, IsLength (utf8 s).length → Accepted t (f s)) :
    Ensures (decodeText f) (Accepted t) := by
  refine (ensures_nullableString.mapError _).bind fun text htextFits => ensures_pure ?_
  cases text with
  | none => exact accepted_null hmissing
  | some s => exact htext s htextFits

/-- What is read as an element type is accepted, if what is read as a boxed value is. -/
lemma ensures_decodeWith {boxed : Decoder BlobError Value}
    (hboxed : Ensures boxed (Accepted .boxed)) (ht : t.Fits) :
    Ensures (decodeWith boxed t) (Accepted t) := by
  induction t with
  | boolean => exact ensures_bind fun n => ensures_pure (accepted_of_own (.boolean _) trivial rfl)
  | char =>
    refine ((ensures_number 2).mapError _).bind fun code hcode => ?_
    by_cases hvalid : code.isValidChar
    · have hchar : (Char.ofNat code).toNat = code := by
        delta Char.ofNat
        rw [dif_pos hvalid]
        rfl
      have hsmall : code < 2 ^ 16 := hcode
      rw [if_pos hvalid]
      have hencode : (Value.char (Char.ofNat code)).encodePlain .char =
          .ok (littleEndian 2 code) := by
        change (if ElementType.char = .char then
          (if (Char.ofNat code).toNat < _ then Except.ok (littleEndian 2 (Char.ofNat code).toNat)
            else _)
          else _) = _
        rw [if_pos rfl, hchar, if_pos hsmall]
      exact ensures_pure (accepted_of_own (.char (Char.ofNat code)) trivial hencode)
    · rw [if_neg hvalid]
      exact ensures_throw _
  | integer kind =>
    exact ensures_bind fun n => ensures_pure
      (accepted_of_own (.integer kind _) trivial (if_pos rfl))
  | single => exact ensures_bind fun n => ensures_pure (accepted_of_own (.single n) trivial rfl)
  | double => exact ensures_bind fun n => ensures_pure (accepted_of_own (.double ⟨n⟩) trivial rfl)
  | string => exact ensures_decodeText ⟨_, rfl⟩ fun s hs => accepted_of_own (.string s) hs rfl
  | type => exact ensures_decodeText ⟨_, rfl⟩ fun s hs => accepted_of_own (.type s) hs rfl
  | boxed => exact hboxed
  | enum typeName underlying ih =>
    exact (ih ht.2).bind fun v hv => ensures_pure (hv.enum ht.1)
  | array element ih =>
    refine ensures_bind fun length => ?_
    by_cases hmissing : length = missing
    · rw [if_pos hmissing]
      exact ensures_pure (accepted_null ⟨_, rfl⟩)
    rw [if_neg hmissing]
    refine (ensures_replicate (ih ht) length.toNat).bind fun values hvalues => ensures_pure ?_
    have hlength : IsLength values.length := by
      rw [hvalues.1]
      exact isLength_toNat hmissing
    exact accepted_array ht hlength hvalues.2

/-- However often a value was boxed, what is left can be written behind its own element type. -/
lemma ensures_decodeBoxed (depth : ℕ) : Ensures (decodeBoxed depth) (Accepted .boxed) := by
  induction depth with
  | zero =>
    intro c v c' h
    have hend := mapError_eq_ok h
    cases hend
  | succ depth ih =>
    refine ElementType.ensures_decode.bind fun t ht => ?_
    intro c v c' h
    exact (ensures_decodeWith ih ht c v c' h).boxed

lemma ensures_decode (ht : t.Fits) : Ensures (decode t) (Accepted t) :=
  ensures_bounded fun depth => ensures_decodeWith (ensures_decodeBoxed depth) ht

end Value

/-! ## Arguments -/

/-- The arguments of a constructor that are read can be written, parameter by parameter. -/
lemma ensures_decodeFixed (parameters : List Signature) :
    Ensures (decodeFixed parameters) fun values =>
      parameters.length = values.length ∧ Value.AllFit values ∧
        ∃ bs, encodeFixed parameters values = .ok bs := by
  induction parameters with
  | nil => exact ensures_pure ⟨rfl, trivial, [], rfl⟩
  | cons s parameters ih =>
    rw [decodeFixed]
    cases ht : parameterType s with
    | error e => exact ensures_throw e
    | ok t =>
      refine (Value.ensures_decode (fits_of_parameterType ht)).bind fun v hv => ?_
      refine ih.bind fun values hvalues => ensures_pure ?_
      obtain ⟨hlength, hfit, bs, hbs⟩ := hvalues
      obtain ⟨front, hfront⟩ := hv.as_read
      refine ⟨congrArg (· + 1) hlength, ⟨hv.fits, hfit⟩, front ++ bs, ?_⟩
      have hrest : (do return (← v.encodeAs t) ++ (← encodeFixed parameters values)) =
          Except.ok (front ++ bs) := by
        rw [hfront, hbs]
        rfl
      rw [encodeFixed, ht]
      exact hrest

/-- What is true of every named argument that is read. -/
structure NamedArgument.Accepted (a : NamedArgument) : Prop where
  name : IsLength (utf8 a.name).length
  value : a.value.Fits
  writable : ∃ bs, a.encode = .ok bs

/-- A named argument is written behind the own element type of its value. -/
lemma NamedArgument.accepted {a : NamedArgument}
    (hname : IsLength (utf8 a.name).length) (h : Value.Accepted t a.value) : a.Accepted := by
  obtain ⟨bs, hbs⟩ := h.as_own
  refine ⟨hname, h.fits,
    a.kind.tag :: a.value.elementType.encode ++ Binary.string a.name ++ bs, ?_⟩
  rw [NamedArgument.encode, hbs]
  rfl

lemma NamedArgument.ensures_decode : Ensures NamedArgument.decode NamedArgument.Accepted := by
  refine ensures_bind fun offset => ensures_bind fun tag => ?_
  intro c a c' h
  obtain ⟨-, h⟩ := ite_throw_eq_ok h
  obtain ⟨t, c₁, ht, h⟩ := bind_eq_ok h
  obtain ⟨name, c₂, hname, h⟩ := bind_eq_ok h
  obtain ⟨value, c₃, hvalue, h⟩ := bind_eq_ok h
  cases h
  have hfits := ElementType.ensures_decode _ t _ ht
  have hlength := ensures_string.mapError BlobError.decode _ name _ hname
  exact NamedArgument.accepted hlength (Value.ensures_decode hfits _ value _ hvalue)

lemma exists_encodeNamed {named : List NamedArgument} (h : ∀ a ∈ named, a.Accepted) :
    ∃ bs, encodeNamed named = .ok bs := by
  induction named with
  | nil => exact ⟨[], rfl⟩
  | cons a named ih =>
    obtain ⟨ha, hnamed⟩ := List.forall_mem_cons.mp h
    obtain ⟨front, hfront⟩ := ha.writable
    obtain ⟨bs, hbs⟩ := ih hnamed
    refine ⟨front ++ bs, ?_⟩
    rw [encodeNamed, hfront, hbs]
    rfl

/-- A 16-bit number counts the named arguments, if there is a number at all. -/
lemma ensures_decodeNamed : Ensures decodeNamed fun named =>
    named.length ≤ 65535 ∧ ∀ a ∈ named, a.Accepted := by
  refine ensures_bind fun left => ?_
  by_cases hleft : left = 0
  · rw [if_pos hleft]
    exact ensures_pure ⟨Nat.zero_le _, fun a ha => by cases ha⟩
  rw [if_neg hleft]
  refine ensures_bind fun n => ?_
  intro c named c' h
  obtain ⟨hlength, hall⟩ := ensures_replicate NamedArgument.ensures_decode n.toNat c named c' h
  have hlt : n.toNat < 65536 := n.toNat_lt
  exact ⟨by omega, hall⟩

namespace Arguments

/-- Arguments that fit and can be written, piece by piece. -/
structure Accepted (parameters : List Signature) (a : Arguments) : Prop where
  fit : a.Fit
  writable : ∃ blob, a.encode parameters = .ok blob

lemma accepted {parameters : List Signature} {fixed : List Value} {named : List NamedArgument}
    (hfixed : parameters.length = fixed.length ∧ Value.AllFit fixed ∧
      ∃ bs, encodeFixed parameters fixed = .ok bs)
    (hnamed : named.length ≤ 65535 ∧ ∀ a ∈ named, a.Accepted) :
    Accepted parameters { fixed, named } := by
  obtain ⟨hlength, hfit, front, hfront⟩ := hfixed
  obtain ⟨hcount, hall⟩ := hnamed
  obtain ⟨bs, hbs⟩ := exists_encodeNamed hall
  refine ⟨⟨hfit, fun a ha => ⟨(hall a ha).name, (hall a ha).value⟩, hcount⟩, ?_⟩
  refine ⟨word16 prolog ++ front ++ word16 (UInt16.ofNat named.length) ++ bs, ?_⟩
  rw [encode]
  dsimp only
  rw [if_neg (not_not.mpr hlength), hfront, hbs]
  rfl

lemma ensures_decoder (parameters : List Signature) :
    Ensures (decoder parameters) (Accepted parameters) := by
  refine ensures_bind fun found => ?_
  intro c a c' h
  obtain ⟨-, h⟩ := ite_throw_eq_ok h
  obtain ⟨fixed, c₁, hfixed, h⟩ := bind_eq_ok h
  obtain ⟨named, c₂, hnamed, h⟩ := bind_eq_ok h
  obtain ⟨left, c₃, -, h⟩ := bind_eq_ok h
  obtain ⟨-, h⟩ := ite_throw_eq_ok h
  cases h
  exact accepted (ensures_decodeFixed parameters _ fixed _ hfixed)
    (ensures_decodeNamed _ named _ hnamed)

/-- Arguments that are read, from whatever bytes, can be written. -/
lemma accepted_of_decode {blob : Bytes} {parameters : List Signature} {a : Arguments}
    (h : decode blob parameters = .ok a) : Accepted parameters a := by
  unfold decode at h
  by_cases hempty : (blob.isEmpty && parameters.isEmpty) = true
  · rw [if_pos hempty] at h
    cases h
    obtain rfl : parameters = [] := List.isEmpty_iff.mp (Bool.and_eq_true_iff.mp hempty).2
    exact accepted ⟨rfl, trivial, [], rfl⟩ ⟨Nat.zero_le _, fun a ha => by cases ha⟩
  · rw [if_neg hempty, Decoder.decode] at h
    split at h
    · next a' c hrun =>
      cases h
      exact ensures_decoder parameters _ a c hrun
    · cases h

/-- Bytes that are accepted have a canonical form: the arguments that they are read as can be
written for the same parameters, and what is written is read as the same arguments. -/
theorem exists_canonical {blob : Bytes} {parameters : List Signature} {a : Arguments}
    (h : decode blob parameters = .ok a) :
    ∃ canonical, a.encode parameters = .ok canonical ∧ decode canonical parameters = .ok a := by
  obtain ⟨hfit, canonical, hwritten⟩ := accepted_of_decode h
  refine ⟨canonical, hwritten, ?_⟩
  rw [decode, isEmpty_of_encode hwritten, Bool.false_and]
  exact (readsAll_decoder hfit hwritten).decode

/-- Bytes that no writer writes: the number 7 for a truth value, an enumeration without a name over
a missing type in three boxes, a missing array of integers in a box, and nothing behind them. -/
def untidyBlob : Bytes :=
  word16 prolog ++ [7] ++ [0x51, 0x51, 0x55] ++ word32 missing ++ [0x50] ++ word32 missing ++
    [0x1d, 0x08] ++ word32 missing

/-- The parameters of a constructor that takes the untidy bytes. -/
def untidyParameters : List Signature :=
  [.simple "System.Boolean", .simple "System.Object", .simple "System.Object"]

/-- What the untidy bytes are read as. -/
def untidySample : Arguments where
  fixed := [.boolean true, .enum "" .null, .null]

/-- The canonical form of the untidy bytes. -/
def tidyBlob : Bytes :=
  word16 prolog ++ [1] ++ 0x55 :: Binary.string "" ++ [0x0e] ++ word32 missing ++
    [0x0e] ++ word32 missing ++ word16 0

lemma decode_untidyBlob : decode untidyBlob untidyParameters = .ok untidySample := by
  rfl

theorem exists_canonical_untidyBlob :
    decode untidyBlob untidyParameters = .ok untidySample ∧ untidyBlob ≠ tidyBlob ∧
      untidySample.encode untidyParameters = .ok tidyBlob ∧
      decode tidyBlob untidyParameters = .ok untidySample := by
  have hwritten : untidySample.encode untidyParameters = .ok tidyBlob := rfl
  obtain ⟨canonical, hcanonical, hread⟩ := exists_canonical decode_untidyBlob
  obtain rfl : tidyBlob = canonical := Except.ok.inj (hwritten.symm.trans hcanonical)
  exact ⟨decode_untidyBlob, by decide, hwritten, hread⟩

end Arguments

end ScriptCompiler.Attribute
