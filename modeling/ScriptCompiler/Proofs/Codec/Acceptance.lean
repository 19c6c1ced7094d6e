import ScriptCompiler.Proofs.Codec.Reading

/-!
# What a decoder accepts

The converse of reading what was written: the bytes are arbitrary, and the decoder has accepted
them.  Of the values that it can yield at all, `Ensures` says what they have in common, whatever
the bytes were.  Where the bytes matter, `bytes_eq_ok` and `word32_eq_ok` give back what was read.
-/

namespace ScriptCompiler.Binary

namespace Decoder

variable {ε δ α β : Type} {P : α → Prop} {Q : β → Prop} {d : Decoder ε α} {k : α → Decoder ε β}
  {c c' : Cursor}

/-- Every value that the decoder yields satisfies `P`. -/
def Ensures (d : Decoder ε α) (P : α → Prop) : Prop :=
  ∀ c a c', d c = .ok a c' → P a

/-! ## Putting decoders together -/

/-- A sequence of two decoders has accepted if both have. -/
lemma bind_eq_ok {b : β} (h : (d >>= k) c = .ok b c') :
    ∃ a c₁, d c = .ok a c₁ ∧ k a c₁ = .ok b c' := by
  change EStateM.bind d k c = _ at h
  unfold EStateM.bind at h
  split at h
  · next a c₁ hd => exact ⟨a, c₁, hd, h⟩
  · cases h

lemma mapError_eq_ok {f : ε → δ} {a : α} (h : d.mapError f c = .ok a c') : d c = .ok a c' := by
  unfold mapError at h
  split at h
  · next a' c₁ hd =>
    cases h
    exact hd
  · cases h

/-- A check has accepted if its condition does not hold. -/
lemma ite_throw_eq_ok {p : Prop} [Decidable p] {e : ε} {d : Decoder ε β} {b : β}
    (h : (if p then throw e >>= k else d) c = .ok b c') : ¬ p ∧ d c = .ok b c' := by
  by_cases hp : p
  · rw [if_pos hp] at h
    obtain ⟨_, _, hthrow, _⟩ := bind_eq_ok h
    cases hthrow
  · rw [if_neg hp] at h
    exact ⟨hp, h⟩

lemma ensures_pure {a : α} (h : P a) : Ensures (pure a : Decoder ε α) P := by
  intro c a' c' hrun
  cases hrun
  exact h

lemma ensures_throw (e : ε) : Ensures (throw e : Decoder ε α) P := by
  intro c a c' hrun
  cases hrun

lemma ensures_true (d : Decoder ε α) : Ensures d fun _ => True :=
  fun _ _ _ _ => trivial

/-- What is ensured is ensured in turn. -/
lemma Ensures.bind (hd : Ensures d P) (hk : ∀ a, P a → Ensures (k a) Q) : Ensures (d >>= k) Q := by
  intro c b c' hrun
  obtain ⟨a, c₁, ha, hb⟩ := bind_eq_ok hrun
  exact hk a (hd c a c₁ ha) c₁ b c' hb

/-- The first value does not matter. -/
lemma ensures_bind (hk : ∀ a, Ensures (k a) Q) : Ensures (d >>= k) Q :=
  (ensures_true d).bind fun a _ => hk a

lemma Ensures.mapError (hd : Ensures d P) (f : ε → δ) : Ensures (d.mapError f) P :=
  fun c a c' h => hd c a c' (mapError_eq_ok h)

lemma ensures_bounded {d : ℕ → Decoder ε α} (h : ∀ depth, Ensures (d depth) P) :
    Ensures (bounded d) P :=
  ensures_bind fun n => h (n + 1)

/-- Repeated decoders ensure it of all results. -/
lemma ensures_replicate (hd : Ensures d P) (n : ℕ) :
    Ensures (replicate d n) fun as => as.length = n ∧ ∀ a ∈ as, P a := by
  induction n with
  | zero => exact ensures_pure ⟨rfl, fun _ h => by cases h⟩
  | succ n ih =>
    refine hd.bind fun a ha => ih.bind fun as has => ensures_pure ⟨?_, ?_⟩
    · rw [List.length_cons, has.1]
    · exact List.forall_mem_cons.mpr ⟨ha, has.2⟩

/-! ## Bytes, numbers and texts -/

/-- Bytes that are read were there. -/
lemma bytes_eq_ok {n : ℕ} {bs : Bytes} (h : bytes n c = .ok bs c') :
    bs.length = n ∧ c.rest = bs ++ c'.rest := by
  simp only [bytes] at h
  split at h
  · cases h
  · next hlength =>
    cases h
    have hle : (c.rest.take n).length ≤ n := List.length_take_le n c.rest
    exact ⟨by omega, (List.take_append_drop n c.rest).symm⟩

/-- So were those of a word. -/
lemma word32_eq_ok {n : UInt32} (h : word32 c = .ok n c') :
    c.rest = Binary.word32 n ++ c'.rest := by
  obtain ⟨k, c₁, hk, hn⟩ := bind_eq_ok h
  obtain ⟨bs, c₂, hbs, hk⟩ := bind_eq_ok hk
  obtain ⟨hlength, hrest⟩ := bytes_eq_ok hbs
  cases hk
  cases hn
  rw [word32_ofLittleEndian hlength, hrest]

lemma ensures_bytes (n : ℕ) : Ensures (bytes n) fun bs => bs.length = n :=
  fun _ _ _ h => (bytes_eq_ok h).1

lemma ensures_number (size : ℕ) : Ensures (number size) (· < 256 ^ size) := by
  refine (ensures_bytes size).bind fun bs hbs => ensures_pure ?_
  rw [← hbs]
  exact ofLittleEndian_lt bs

lemma ensures_blob : Ensures blob fun bs => IsCount bs.length := by
  refine ensures_bind fun n => ?_
  intro c bs c' h
  rw [ensures_bytes n.toNat c bs c' h]
  exact isCount_toNat n

/-- Bytes that are read as a text are the bytes of the text. -/
lemma utf8_of_fromUTF8? {bs : Bytes} {s : String} (h : String.fromUTF8? bs.toByteArray = some s) :
    utf8 s = bs := by
  unfold String.fromUTF8? at h
  split at h
  · cases h
    simp [utf8, String.fromUTF8]
  · cases h

/-- A text that is read fits behind a length, and so does a missing one, as the empty text. -/
lemma ensures_nullableString : Ensures nullableString fun text =>
    IsLength (utf8 (text.getD "")).length := by
  refine ensures_bind fun length => ?_
  by_cases hmissing : length = missing
  · rw [if_pos hmissing]
    exact ensures_pure (by decide)
  rw [if_neg hmissing]
  refine ensures_bind fun start => (ensures_bytes length.toNat).bind fun bs hbs => ?_
  cases hs : String.fromUTF8? bs.toByteArray with
  | none => exact ensures_throw _
  | some s =>
    refine ensures_pure ?_
    rw [Option.getD_some, utf8_of_fromUTF8? hs, hbs]
    exact isLength_toNat hmissing

/-- A text that is read fits behind a length; a missing text is read as the empty one. -/
lemma ensures_string : Ensures string fun s => IsLength (utf8 s).length :=
  ensures_nullableString.bind fun _ htext => ensures_pure htext

lemma ensures_optionalIndex : Ensures optionalIndex fun index => index ≠ some missing := by
  refine ensures_bind fun i => ensures_pure ?_
  by_cases hi : i = missing
  · rw [if_pos hi]
    exact (Option.some_ne_none _).symm
  · rw [if_neg hi]
    exact fun h => hi (Option.some.inj h)

/-- Counted items have a count. -/
lemma ensures_counted {d : Decoder DecodeError α} (hd : Ensures d P) :
    Ensures (counted d) fun as => IsCount as.length ∧ ∀ a ∈ as, P a := by
  refine ensures_bind fun n => ?_
  intro c as c' h
  obtain ⟨hlength, has⟩ := ensures_replicate hd n.toNat c as c' h
  rw [hlength]
  exact ⟨isCount_toNat n, has⟩

end Decoder

end ScriptCompiler.Binary
