import ScriptCompiler.Proofs.Codec.Acceptance
import ScriptCompiler.Proofs.Codec.Arguments

/-!
# Attribute arguments that are cut off

The bytes of attribute arguments are not delimited from outside: how many there are is known only
from reading them.  So nothing that is cut off must be taken for something complete.  The reason is
the same for every decoder that never asks how much is left: on fewer bytes it does what it does on
more, step by step, until it comes to their end (`UntilEnd`).  If it comes to no end, it stops where
it stops on all the bytes, and then nothing was cut off.

The bound on the depth of what is read is smaller on fewer bytes, so `UntilEnd` relates two
decoders.  Running into the bound counts as the end of the bytes.
-/

namespace ScriptCompiler

namespace Binary

/-- The bytes ended. -/
def DecodeError.IsEnd (e : DecodeError) : Prop :=
  ∃ offset, e = .unexpectedEnd offset

namespace Decoder

variable {ε δ α β : Type} {E : ε → Prop} {d d' : Decoder ε α} {k : α → Decoder ε β}

/-- Whenever `d'` accepts, `d` does the same on fewer bytes, or comes to their end with an error
in `E`. -/
def UntilEnd (E : ε → Prop) (d d' : Decoder ε α) : Prop :=
  ∀ position bs more a c', d' ⟨position, bs ++ more⟩ = .ok a c' →
    (∃ e c, E e ∧ d ⟨position, bs⟩ = .error e c) ∨
      ∃ rest, c'.rest = rest ++ more ∧ d ⟨position, bs⟩ = .ok a ⟨c'.position, rest⟩

/-! ## Putting decoders together -/

lemma bind_eq_error {e : ε} {c c' : Cursor} (h : d c = .error e c') :
    (d >>= k) c = .error e c' := by
  show EStateM.bind d k c = _
  rw [EStateM.bind, h]

lemma bind_run {a : α} {c c' : Cursor} (h : d c = .ok a c') : (d >>= k) c = k a c' := by
  show EStateM.bind d k c = _
  rw [EStateM.bind, h]

lemma untilEnd_pure (a : α) : UntilEnd E (pure a) (pure a) := by
  rintro position bs more a' c' ⟨⟩
  exact .inr ⟨bs, rfl, rfl⟩

/-- There is nothing to compare with an error. -/
lemma untilEnd_throw (e : ε) : UntilEnd E d (throw e) := by
  rintro position bs more a c' ⟨⟩

/-- Decoders that agree until the end do so in turn. -/
lemma UntilEnd.bind {k k' : α → Decoder ε β} (hd : UntilEnd E d d')
    (hk : ∀ a, UntilEnd E (k a) (k' a)) : UntilEnd E (d >>= k) (d' >>= k') := by
  intro position bs more b c' h
  obtain ⟨a, ⟨p, all⟩, ha, hb⟩ := bind_eq_ok h
  rcases hd position bs more a _ ha with ⟨e, c, he, hfail⟩ | ⟨rest, rfl, hrun⟩
  · exact .inl ⟨e, c, he, bind_eq_error hfail⟩
  · rw [bind_run hrun]
    exact hk a p rest more b c' hb

/-- A check comes first in both. -/
lemma UntilEnd.check {p : Prop} [Decidable p] {e : ε} {k : β → Decoder ε α}
    (hd : UntilEnd E d d') :
    UntilEnd E (if p then throw e >>= k else d) (if p then throw e >>= k else d') := by
  intro position bs more a c' h
  obtain ⟨hp, hrun⟩ := ite_throw_eq_ok h
  rw [if_neg hp]
  exact hd position bs more a c' hrun

lemma untilEnd_position : UntilEnd E position position := by
  rintro p bs more n c' ⟨⟩
  exact .inr ⟨bs, rfl, rfl⟩

/-- Errors may be changed. -/
lemma UntilEnd.mapError {F : δ → Prop} {f : ε → δ} (hd : UntilEnd E d d')
    (hf : ∀ e, E e → F (f e)) : UntilEnd F (d.mapError f) (d'.mapError f) := by
  intro position bs more a c' h
  rcases hd position bs more a c' (mapError_eq_ok h) with ⟨e, c, he, hfail⟩ | ⟨rest, hrest, hrun⟩
  · exact .inl ⟨f e, c, hf e he, by rw [Decoder.mapError, hfail]⟩
  · exact .inr ⟨rest, hrest, by rw [Decoder.mapError, hrun]⟩

/-- So do repeated decoders. -/
lemma UntilEnd.replicate (hd : UntilEnd E d d') (n : ℕ) :
    UntilEnd E (d.replicate n) (d'.replicate n) := by
  induction n with
  | zero => exact untilEnd_pure []
  | succ n ih => exact hd.bind fun a => ih.bind fun as => untilEnd_pure (a :: as)

/-- On fewer bytes the bound on the depth is smaller. -/
lemma untilEnd_bounded {d : ℕ → Decoder ε α} (h : ∀ n m, n ≤ m → UntilEnd E (d n) (d m)) :
    UntilEnd E (bounded d) (bounded d) := by
  intro position bs more a c' hrun
  refine h (bs.length + 1) ((bs ++ more).length + 1) ?_ position bs more a c' hrun
  rw [List.length_append]
  omega

/-- If `bs` are all the bytes that are left, the decoder comes to their end with an error in `E`. -/
def Ends (E : ε → Prop) (d : Decoder ε α) (bs : Bytes) : Prop :=
  ∀ position, ∃ e c, E e ∧ d ⟨position, bs⟩ = .error e c

/-- A decoder that accepts all its bytes comes to the end of them if some are cut off. -/
lemma UntilEnd.ends (hd : UntilEnd E d d) {bs more : Bytes} {a : α}
    (h : ReadsAll d (bs ++ more) a) (hmore : more ≠ []) : Ends E d bs := by
  intro position
  rcases hd position bs more a _ (h position) with hend | ⟨rest, hrest, -⟩
  · exact hend
  · exact absurd (List.append_eq_nil_iff.mp hrest.symm).2 hmore

/-- What ends early ends what follows. -/
lemma Ends.bind {bs : Bytes} (hd : Ends E d bs) (k : α → Decoder ε β) : Ends E (d >>= k) bs := by
  intro position
  obtain ⟨e, c, he, hrun⟩ := hd position
  exact ⟨e, c, he, bind_eq_error hrun⟩

/-- What comes behind a value may come to the end. -/
lemma Reads.bind_ends {bs cs : Bytes} {a : α} (hd : Reads d bs a) (hk : Ends E (k a) cs) :
    Ends E (d >>= k) (bs ++ cs) := by
  intro position
  rw [hd.run_bind]
  exact hk _

/-- What ends early is rejected. -/
lemma Ends.decode {bs : Bytes} (hd : Ends E d bs) : ∃ e, E e ∧ d.decode bs = .error e := by
  obtain ⟨e, c, he, hrun⟩ := hd 0
  exact ⟨e, he, by rw [Decoder.decode, Cursor.start, hrun]⟩

/-! ## Bytes, numbers and texts -/

/-- Bytes are read until the end. -/
lemma untilEnd_bytes (n : ℕ) : UntilEnd DecodeError.IsEnd (bytes n) (bytes n) := by
  intro position bs more taken c' h
  by_cases hlength : bs.length < n
  · refine .inl ⟨_, ⟨position, bs⟩, ⟨position, rfl⟩, ?_⟩
    rw [bytes, if_pos (by simpa using hlength)]
  · -- enough bytes are there to be read, with or without more behind them
    have hread := reads_bytes (bs.take n)
    rw [List.length_take_of_le (Nat.le_of_not_lt hlength)] at hread
    have hall := hread position (bs.drop n ++ more)
    rw [← List.append_assoc, List.take_append_drop, h] at hall
    cases hall
    have hrun := hread position (bs.drop n)
    rw [List.take_append_drop] at hrun
    exact .inr ⟨bs.drop n, rfl, hrun⟩

lemma untilEnd_number (size : ℕ) : UntilEnd DecodeError.IsEnd (number size) (number size) :=
  (untilEnd_bytes size).bind fun _ => untilEnd_pure _

lemma untilEnd_word8 : UntilEnd DecodeError.IsEnd word8 word8 :=
  (untilEnd_number 1).bind fun _ => untilEnd_pure _

lemma untilEnd_word16 : UntilEnd DecodeError.IsEnd word16 word16 :=
  (untilEnd_number 2).bind fun _ => untilEnd_pure _

lemma untilEnd_word32 : UntilEnd DecodeError.IsEnd word32 word32 :=
  (untilEnd_number 4).bind fun _ => untilEnd_pure _

lemma untilEnd_word64 : UntilEnd DecodeError.IsEnd word64 word64 :=
  (untilEnd_number 8).bind fun _ => untilEnd_pure _

/-- So are strings. -/
lemma untilEnd_nullableString : UntilEnd DecodeError.IsEnd nullableString nullableString := by
  refine untilEnd_word32.bind fun length => ?_
  by_cases hmissing : length = missing
  · rw [if_pos hmissing]
    exact untilEnd_pure none
  rw [if_neg hmissing]
  refine untilEnd_position.bind fun start => (untilEnd_bytes length.toNat).bind fun bs => ?_
  cases String.fromUTF8? bs.toByteArray with
  | none => exact untilEnd_throw _
  | some s => exact untilEnd_pure (some s)

lemma untilEnd_string : UntilEnd DecodeError.IsEnd string string :=
  untilEnd_nullableString.bind fun _ => untilEnd_pure _

end Decoder

end Binary

namespace Attribute

open Binary
open Binary.Decoder
open Metadata (Signature)

/-- The bytes ended. -/
def BlobError.IsEnd (e : BlobError) : Prop :=
  ∃ offset, e = .decode (.unexpectedEnd offset)

/-- The end of the bytes is the same error among those of arguments. -/
lemma untilEnd_lift {α : Type} {d d' : Decoder DecodeError α}
    (h : UntilEnd DecodeError.IsEnd d d') :
    UntilEnd BlobError.IsEnd (d.mapError .decode) (d'.mapError .decode) := by
  refine h.mapError ?_
  rintro _ ⟨offset, rfl⟩
  exact ⟨offset, rfl⟩

/-- The bound on the depth is one on the bytes. -/
lemma untilEnd_endOfInput {α : Type} {d : Decoder BlobError α} :
    UntilEnd BlobError.IsEnd (Decoder.endOfInput.mapError .decode) d :=
  fun position bs _ _ _ _ => .inl ⟨_, ⟨position, bs⟩, ⟨position, rfl⟩, rfl⟩

/-! ## Element types and values -/

lemma ElementType.untilEnd_decodeWithin {n m : ℕ} (h : n ≤ m) :
    UntilEnd BlobError.IsEnd (decodeWithin n) (decodeWithin m) := by
  induction n generalizing m with
  | zero => exact untilEnd_endOfInput
  | succ n ih =>
    obtain ⟨m, rfl⟩ := Nat.exists_eq_add_one.mpr (Nat.zero_lt_of_lt h)
    have hinner := ih (Nat.le_of_succ_le_succ h)
    refine untilEnd_position.bind fun offset => (untilEnd_lift untilEnd_word8).bind fun tag => ?_
    cases ofTag? tag with
    | some t => exact untilEnd_pure t
    | none =>
      dsimp only
      by_cases henum : tag = 0x55
      · rw [if_pos henum, if_pos henum]
        refine (untilEnd_lift untilEnd_string).bind fun name => ?_
        exact hinner.bind fun underlying => untilEnd_pure _
      rw [if_neg henum, if_neg henum]
      by_cases harray : tag = 0x1d
      · rw [if_pos harray, if_pos harray]
        exact hinner.bind fun element => untilEnd_pure _
      · rw [if_neg harray, if_neg harray]
        exact untilEnd_throw _

lemma ElementType.untilEnd_decode : UntilEnd BlobError.IsEnd decode decode :=
  untilEnd_bounded fun _ _ h => untilEnd_decodeWithin h

namespace Value

lemma untilEnd_decodeText (f : String → Value) :
    UntilEnd BlobError.IsEnd (decodeText f) (decodeText f) :=
  (untilEnd_lift untilEnd_nullableString).bind fun _ => untilEnd_pure _

lemma untilEnd_decodeWith {boxed boxed' : Decoder BlobError Value}
    (hboxed : UntilEnd BlobError.IsEnd boxed boxed') (t : ElementType) :
    UntilEnd BlobError.IsEnd (decodeWith boxed t) (decodeWith boxed' t) := by
  induction t with
  | boolean => exact (untilEnd_lift untilEnd_word8).bind fun _ => untilEnd_pure _
  | char =>
    refine (untilEnd_lift (untilEnd_number 2)).bind fun code => ?_
    split
    · exact untilEnd_pure _
    · exact untilEnd_throw _
  | integer kind =>
    exact (untilEnd_lift (untilEnd_number kind.size)).bind fun _ => untilEnd_pure _
  | single => exact (untilEnd_lift untilEnd_word32).bind fun _ => untilEnd_pure _
  | double => exact (untilEnd_lift untilEnd_word64).bind fun _ => untilEnd_pure _
  | string | type => exact untilEnd_decodeText _
  | boxed => exact hboxed
  | enum typeName underlying ih => exact ih.bind fun _ => untilEnd_pure _
  | array element ih =>
    refine (untilEnd_lift untilEnd_word32).bind fun length => ?_
    by_cases hmissing : length = missing
    · rw [if_pos hmissing, if_pos hmissing]
      exact untilEnd_pure _
    · rw [if_neg hmissing, if_neg hmissing]
      exact (ih.replicate length.toNat).bind fun _ => untilEnd_pure _

lemma untilEnd_decodeBoxed {n m : ℕ} (h : n ≤ m) :
    UntilEnd BlobError.IsEnd (decodeBoxed n) (decodeBoxed m) := by
  induction n generalizing m with
  | zero => exact untilEnd_endOfInput
  | succ n ih =>
    obtain ⟨m, rfl⟩ := Nat.exists_eq_add_one.mpr (Nat.zero_lt_of_lt h)
    have hinner := ih (Nat.le_of_succ_le_succ h)
    exact ElementType.untilEnd_decode.bind fun t => untilEnd_decodeWith hinner t

lemma untilEnd_decode (t : ElementType) : UntilEnd BlobError.IsEnd (decode t) (decode t) :=
  untilEnd_bounded fun _ _ h => untilEnd_decodeWith (untilEnd_decodeBoxed h) t

end Value

/-! ## Arguments -/

lemma untilEnd_decodeFixed (parameters : List Signature) :
    UntilEnd BlobError.IsEnd (decodeFixed parameters) (decodeFixed parameters) := by
  induction parameters with
  | nil => exact untilEnd_pure []
  | cons s parameters ih =>
    rw [decodeFixed]
    cases parameterType s with
    | error e => exact untilEnd_throw e
    | ok t => exact (Value.untilEnd_decode t).bind fun v => ih.bind fun _ => untilEnd_pure _

lemma NamedArgument.untilEnd_decode :
    UntilEnd BlobError.IsEnd NamedArgument.decode NamedArgument.decode := by
  refine untilEnd_position.bind fun offset => (untilEnd_lift untilEnd_word8).bind fun tag => ?_
  refine UntilEnd.check (ElementType.untilEnd_decode.bind fun t => ?_)
  refine (untilEnd_lift untilEnd_string).bind fun name => ?_
  exact (Value.untilEnd_decode t).bind fun value => untilEnd_pure _

/-- Named arguments are cut off anywhere but in front of their number. -/
lemma ends_decodeNamed {named : List NamedArgument} {bs cut more : Bytes}
    (hfit : ∀ a ∈ named, IsLength (utf8 a.name).length ∧ a.value.Fits)
    (hcount : named.length ≤ 65535) (h : encodeNamed named = .ok bs)
    (hcut : word16 (UInt16.ofNat named.length) ++ bs = cut ++ more) (hne : cut ≠ [])
    (hmore : more ≠ []) : Ends BlobError.IsEnd decodeNamed cut := by
  have hnumber : (UInt16.ofNat named.length).toNat = named.length :=
    UInt16.toNat_ofNat_of_lt' (by change named.length < 65536; omega)
  have hread : Reads (do
      let n ← Decoder.word16.mapError BlobError.decode
      Decoder.replicate NamedArgument.decode n.toNat) (cut ++ more) named := by
    rw [← hcut]
    refine ((reads_word16 _).mapError BlobError.decode).bind ?_
    rw [hnumber]
    exact reads_replicate_named hfit h
  have huntil := (untilEnd_lift untilEnd_word16).bind fun n =>
    NamedArgument.untilEnd_decode.replicate n.toNat
  intro position
  obtain ⟨e, c, he, hrun⟩ := huntil.ends hread.all hmore position
  refine ⟨e, c, he, ?_⟩
  change (if cut.length = 0 then _ else _ : Decoder BlobError _) _ = _
  rwa [if_neg (fun hzero => hne (List.length_eq_zero_iff.mp hzero))]

namespace Arguments

/-- What becomes of the bytes of arguments that are cut off: the bytes end before they should, except
in front of the number of named arguments, where the arguments of the constructor are all there is,
and except that no bytes at all stand for no arguments. -/
def ReadsCut (a : Arguments) (parameters : List Signature) (blob : Bytes) : Prop :=
  ∃ fixed named, encodeFixed parameters a.fixed = .ok fixed ∧ encodeNamed a.named = .ok named ∧
    blob = word16 prolog ++ (fixed ++ (word16 (UInt16.ofNat a.named.length) ++ named)) ∧
    ∀ k < blob.length, ∃ offset, decode (blob.take k) parameters =
      if k = 0 ∧ parameters.isEmpty then .ok {}
      else if k = (word16 prolog ++ fixed).length then .ok { fixed := a.fixed }
      else .error (.decode (.unexpectedEnd offset))

/-- Two parts in a row are cut off inside the first one, or in or behind the second one. -/
lemma cut_cases {front back cut more : Bytes} (h : front ++ back = cut ++ more) :
    (∃ rest, front = cut ++ rest ∧ rest ≠ []) ∨ ∃ rest, cut = front ++ rest ∧ back = rest ++ more := by
  rcases List.append_eq_append_iff.mp h with ⟨rest, hcut, hback⟩ | ⟨rest, hfront, hmore⟩
  · exact .inr ⟨rest, hcut, hback⟩
  · by_cases hrest : rest = []
    · refine .inr ⟨[], ?_, ?_⟩
      · rw [hfront, hrest, List.append_nil, List.append_nil]
      · rw [hmore, hrest, List.nil_append, List.nil_append]
    · exact .inl ⟨rest, hfront, hrest⟩

/-- Wherever the bytes are cut off but in front of the number of named arguments, the reader comes
to their end. -/
lemma ends_decoder {a : Arguments} {parameters : List Signature} {fixed named cut more : Bytes}
    (ha : a.Fit) (hlength : parameters.length = a.fixed.length)
    (hfixed : encodeFixed parameters a.fixed = .ok fixed)
    (hnamed : encodeNamed a.named = .ok named)
    (hcut : word16 prolog ++ (fixed ++ (word16 (UInt16.ofNat a.named.length) ++ named)) = cut ++ more)
    (hmore : more ≠ []) (hne : cut ≠ word16 prolog ++ fixed) :
    Ends BlobError.IsEnd (decoder parameters) cut := by
  have hprolog := (reads_word16 prolog).mapError BlobError.decode
  have hread := reads_decodeFixed hlength ha.fixed hfixed
  rcases cut_cases hcut with ⟨rest, hfront, hrest⟩ | ⟨behind, rfl, hbehind⟩
  · exact Ends.bind ((untilEnd_lift untilEnd_word16).ends (hfront ▸ hprolog.all) hrest) _
  refine hprolog.bind_ends ?_
  rw [if_neg (not_not.2 rfl)]
  rcases cut_cases hbehind with ⟨rest, hfront, hrest⟩ | ⟨last, rfl, hlast⟩
  · exact Ends.bind ((untilEnd_decodeFixed parameters).ends (hfront ▸ hread.all) hrest) _
  refine hread.bind_ends (Ends.bind (ends_decodeNamed ha.named ha.count hnamed hlast ?_ hmore) _)
  rintro rfl
  exact hne (by rw [List.append_nil])

/-- Cut off in front of the number of named arguments, all the arguments of the constructor are
read. -/
lemma readsAll_decoder_fixed {parameters : List Signature} {values : List Value} {fixed : Bytes}
    (hfixed : Reads (decodeFixed parameters) fixed values) :
    ReadsAll (decoder parameters) (word16 prolog ++ fixed) { fixed := values } := by
  refine ((reads_word16 prolog).mapError BlobError.decode).bind_all ?_
  rw [if_neg (not_not.2 rfl), ← List.append_nil fixed]
  exact hfixed.bind_all fun position => rfl

/-- Arguments are never read from bytes that are cut off, except in front of the number of named
arguments and except from no bytes at all, if all their texts and arrays fit behind a length. -/
theorem readsCut_of_encode {a : Arguments} {parameters : List Signature} {blob : Bytes} (ha : a.Fit)
    (h : a.encode parameters = .ok blob) : a.ReadsCut parameters blob := by
  obtain ⟨hlength, fixed, named, hfixed, hnamed, rfl⟩ := exists_of_encode_eq_ok h
  refine ⟨fixed, named, hfixed, hnamed, rfl, fun k hk => ?_⟩
  generalize hblob : word16 prolog ++ (fixed ++ (word16 (UInt16.ofNat a.named.length) ++ named)) =
    blob at hk ⊢
  by_cases hempty : k = 0 ∧ parameters.isEmpty
  · exact ⟨0, by rw [if_pos hempty, hempty.1, List.take_zero, decode, hempty.2]; rfl⟩
  have hdecode : decode (blob.take k) parameters = (decoder parameters).decode (blob.take k) := by
    rw [decode, if_neg]
    rw [Bool.and_eq_true, List.isEmpty_iff, List.take_eq_nil_iff]
    rintro ⟨hzero | rfl, hparameters⟩
    · exact hempty ⟨hzero, hparameters⟩
    · exact absurd hk (Nat.not_lt_zero k)
  simp only [hdecode, if_neg hempty]
  by_cases hcount : k = (word16 prolog ++ fixed).length
  · have htake : blob.take k = word16 prolog ++ fixed := by
      rw [← hblob, ← List.append_assoc, hcount, List.take_left]
    simp only [if_pos hcount, htake]
    exact ⟨0, (readsAll_decoder_fixed (reads_decodeFixed hlength ha.fixed hfixed)).decode⟩
  · have hne : blob.take k ≠ word16 prolog ++ fixed := by
      intro heq
      exact hcount (by rw [← heq, List.length_take_of_le hk.le])
    have hcut := hblob.trans (List.take_append_drop k blob).symm
    obtain ⟨_, ⟨offset, rfl⟩, hend⟩ :=
      (ends_decoder ha hlength hfixed hnamed hcut (by simpa using hk) hne).decode
    exact ⟨offset, by rw [if_neg hcount, hend]⟩

theorem readsCut_of_encode_sample : ∃ blob, sample.encode sampleParameters = .ok blob ∧
    sample.ReadsCut sampleParameters blob :=
  ⟨_, rfl, readsCut_of_encode fit_sample rfl⟩

/-- A letter of two bytes in front of many of one byte. -/
def longText (n : ℕ) : String :=
  String.ofList ('é' :: List.replicate n 'a')

lemma exists_utf8_longText (n : ℕ) :
    ∃ rest : Bytes, utf8 (longText n) = 0xc3 :: rest ∧ rest.length = n + 1 := by
  refine ⟨0xa9 :: utf8 (String.ofList (List.replicate n 'a')), ?_, ?_⟩
  · rw [longText, utf8_ofList, utf8_ofList]
    rfl
  · rw [List.length_cons, length_utf8_replicate]

/-- A text of so many bytes that its length is taken for 1. -/
def longSample : Arguments where
  fixed := [.string (longText 4294967295)]

/-- The parameters of a constructor that takes a text. -/
def longParameters : List Signature :=
  [.simple "System.String"]

/-- Cut off behind the first byte, the text is not valid, and that is the error. -/
theorem not_readsCut_longSample : ∃ blob, longSample.named.length ≤ 65535 ∧
    longSample.encode longParameters = .ok blob ∧ 7 < blob.length ∧
    decode (blob.take 7) longParameters = .error (.decode (.invalidUtf8 6)) ∧
    ¬ longSample.ReadsCut longParameters blob := by
  obtain ⟨rest, hbytes, hrest⟩ := exists_utf8_longText 4294967295
  generalize hfront : word16 prolog ++ (word32 1 ++ 0xc3 :: rest) = front
  have hlength : 7 < front.length := by
    rw [← hfront, List.length_append, List.length_append, List.length_cons, hrest]
    decide
  have hfixed : encodeFixed longParameters longSample.fixed = .ok (word32 1 ++ 0xc3 :: rest) := by
    have hcount : count (0xc3 :: rest).length = word32 1 := by
      rw [List.length_cons, hrest]
      rfl
    rw [← hcount, ← hbytes, ← List.append_nil (_ ++ _)]
    rfl
  have hencode : longSample.encode longParameters = .ok (front ++ word16 0 ++ []) := by
    rw [encode, if_neg (by decide), hfixed, ← hfront]
    rfl
  have hread : decode ((front ++ word16 0 ++ []).take 7) longParameters =
      .error (.decode (.invalidUtf8 6)) := by
    have htake : (front ++ word16 0 ++ []).take 7 = [1, 0, 1, 0, 0, 0, 0xc3] := by
      rw [← hfront]
      rfl
    rw [htake]
    rfl
  have hcut : 7 < (front ++ word16 0 ++ []).length := by
    simp only [List.length_append]
    omega
  refine ⟨_, Nat.zero_le _, hencode, hcut, hread, ?_⟩
  rintro ⟨fixed, named, hfixed', -, -, hall⟩
  obtain rfl := Except.ok.inj (hfixed.symm.trans hfixed')
  obtain ⟨offset, hend⟩ := hall 7 hcut
  rw [hread, if_neg (by decide), hfront, if_neg hlength.ne] at hend
  cases hend

end Arguments

end Attribute

end ScriptCompiler
