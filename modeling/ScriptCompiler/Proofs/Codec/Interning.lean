import ScriptCompiler.Proofs.Codec.Normalization

/-!
# Indices of interned texts

Tables refer to texts by index only, so an index has to mean the same text for as long as a pool is
in use, and on both sides of a file.  Everything follows from one invariant, `Pool.Indexed`, which
holds of the empty pool, of every pool that is read, even if a text occurs twice in it, and after
every text that is interned.  Since the invariant determines the index by the stored texts, a pool
that is written and read answers like the one that was written.
-/

namespace ScriptCompiler.Metadata

open Binary
open Binary.Decoder

namespace Pool

variable {p q : Pool}

/-- Interns texts in turn and yields their indices. -/
def internAll (p : Pool) : List String → List UInt32 × Pool
  | [] => ([], p)
  | s :: rest =>
    let later := (p.intern s).2.internAll rest
    ((p.intern s).1 :: later.1, later.2)

/-- A pool that was empty or read from bytes, and in which texts were interned since. -/
inductive Grown : Pool → Prop
  | empty : Grown {}
  | decoded {p : Pool} {c c' : Cursor} (h : Pool.decode c = .ok p c') : Grown p
  | intern {p : Pool} (h : Grown p) (s : String) : Grown (p.intern s).2

lemma Indexed.foldl_append (hp : p.Indexed) (strings : List String) :
    (strings.foldl Pool.append p).Indexed := by
  induction strings generalizing p with
  | nil => exact hp
  | cons s strings ih => exact ih (hp.append s)

lemma Grown.indexed (hp : p.Grown) : p.Indexed := by
  have hdecode : Ensures Pool.decode Indexed :=
    ensures_bind fun strings => ensures_pure (indexed_empty.foldl_append strings)
  induction hp with
  | empty => exact indexed_empty
  | decoded h => exact hdecode _ _ _ h
  | intern _ s ih => exact ih.intern s

lemma Tidy.internAll (hp : p.Tidy) (texts : List String) : (p.internAll texts).2.Tidy := by
  induction texts generalizing p with
  | nil => exact hp
  | cons s texts ih => exact ih (hp.intern s)

/-- A text is not added again. -/
lemma intern_intern (p : Pool) (s : String) : (p.intern s).2.intern s = p.intern s := by
  cases h : p.index.lookup s with
  | none => simp [intern, h]
  | some i => simp [intern, h]

/-- The stored texts determine all indices to come. -/
lemma Indexed.internAll_eq (hp : p.Indexed) (hq : q.Indexed) (h : p.strings = q.strings)
    (texts : List String) : (p.internAll texts).1 = (q.internAll texts).1 := by
  induction texts generalizing p q with
  | nil => rfl
  | cons s texts ih =>
    have hlookup : p.index.lookup s = q.index.lookup s := by rw [hp s, hq s, h]
    have hindex : (p.intern s).1 = (q.intern s).1 := by rw [intern_eq, intern_eq, hlookup, h]
    have hstrings : (p.intern s).2.strings = (q.intern s).2.strings := by
      rw [intern_eq, intern_eq, hlookup]
      dsimp only
      split
      · exact h
      · exact congrArg (· ++ [s]) h
    exact congrArg₂ List.cons hindex (ih (hp.intern s) (hq.intern s) hstrings)

/-- The bytes of a pool are read as one with the same texts, unless a text is too long for them, and
this one yields the same indices from then on. -/
lemma Indexed.reads_encode_iff (hp : p.Indexed) (hlength : IsCount p.strings.length) :
    (∃ q, Reads Pool.decode p.encode q ∧ q.strings = p.strings ∧
      ∀ texts, (q.internAll texts).1 = (p.internAll texts).1) ↔ ∀ s ∈ p.strings, TextFits s := by
  constructor
  · rintro ⟨q, hread, hstrings, -⟩
    rw [← hstrings]
    exact (Module.ensures_decodePool _ _ _ (hread 0 [])).2
  · intro hfits
    have hstrings := strings_foldl_append p.strings {}
    exact ⟨_, reads_decode hfits hlength, hstrings,
      (indexed_empty.foldl_append _).internAll_eq hp hstrings⟩

/-- The index of a pool finds each text where it is stored first, and nothing else.  A text that is
interned is read under its index, interning it again changes nothing, and what was read before is
read as before.  A pool that was empty holds no text twice.  And the bytes of a pool are read as one
with the same texts and the same indices from then on, exactly if no text is too long for them. -/
theorem interning_stable (hp : p.Grown) (hlength : IsLength p.strings.length) :
    (∀ s i, p.index.lookup s = some i ↔
      p.strings[i.toNat]? = some s ∧ ∀ j < i.toNat, p.strings[j]? ≠ some s) ∧
    (∀ s, (p.intern s).2.get (p.intern s).1 = .ok s ∧ (p.intern s).2.intern s = p.intern s ∧
      ∀ i t, p.get i = .ok t → (p.intern s).2.get i = .ok t) ∧
    (∀ texts, (internAll {} texts).2.strings.Nodup) ∧
    ((∃ q, Reads Pool.decode p.encode q ∧ q.strings = p.strings ∧
      ∀ texts, (q.internAll texts).1 = (p.internAll texts).1) ↔ ∀ s ∈ p.strings, TextFits s) := by
  have hindexed := hp.indexed
  refine ⟨fun s i => hindexed.lookup_eq_some_iff hlength.isCount, fun s => ⟨?_, ?_, ?_⟩, ?_,
    hindexed.reads_encode_iff hlength.isCount⟩
  · refine get_of_extends (List.prefix_refl _) (hindexed.getElem?_intern ?_)
    -- one more text than fewer than `2 ^ 32 - 1`
    have hle : (p.intern s).2.strings.length ≤ p.strings.length + 1 := by
      rw [intern_eq]
      dsimp only
      split
      · exact Nat.le_succ _
      · exact List.length_append.le
    unfold IsLength at hlength
    unfold IsCount
    omega
  · exact intern_intern p s
  · intro i t hget
    refine get_of_extends (p.strings_prefix_intern s) ?_
    unfold Pool.get at hget
    split at hget
    · next hstored =>
      cases hget
      exact hstored
    · cases hget
  · exact fun texts => (tidy_empty.internAll texts).nodup

/-- A pool as it may be read, with a text that is stored twice. -/
def repeatedSample : Pool :=
  ["get", "", "get"].foldl append {}

theorem interning_stable_repeatedSample :
    (repeatedSample.intern "set").2.Grown ∧
      IsLength (repeatedSample.intern "set").2.strings.length ∧
      ∃ q, Reads Pool.decode (repeatedSample.intern "set").2.encode q ∧
        q.strings = ["get", "", "get", "set"] ∧
        ∀ texts, (q.internAll texts).1 = ((repeatedSample.intern "set").2.internAll texts).1 := by
  have hfits : ∀ s ∈ ["get", "", "get", "set"], TextFits s := by decide
  have hstored : ∀ s ∈ repeatedSample.strings, TextFits s := by decide
  have hread : Reads Pool.decode repeatedSample.encode repeatedSample :=
    reads_decode hstored (IsLength.isCount (by decide))
  have hgrown : (repeatedSample.intern "set").2.Grown := .intern (.decoded (hread 0 [])) "set"
  exact ⟨hgrown, by decide, (interning_stable hgrown (by decide)).2.2.2.mpr hfits⟩

/-- A pool with a text whose length stands for a missing text. -/
def longSample : Pool :=
  (intern {} (String.ofList (List.replicate 4294967295 'a'))).2

/-- The bytes of the text are not even looked at: the eight bytes in front are read as a pool with
an empty text, so the pool is not read back. -/
theorem not_reads_longSample :
    longSample.Grown ∧ IsLength longSample.strings.length ∧
    (∃ q, Reads Pool.decode (longSample.encode.take 8) q ∧ q.strings = [""]) ∧
    ¬ ∃ q, Reads Pool.decode longSample.encode q ∧ q.strings = longSample.strings ∧
      ∀ texts, (q.internAll texts).1 = (longSample.internAll texts).1 := by
  have hgrown : longSample.Grown := .intern .empty _
  have hlength : IsLength longSample.strings.length := by
    show 1 < 2 ^ 32 - 1
    decide
  generalize htext : String.ofList (List.replicate 4294967295 'a') = text
  have hsize : (utf8 text).length = 4294967295 := by rw [← htext, length_utf8_replicate]
  have hstrings : longSample.strings = [text] := by rw [← htext]; rfl
  have htake : longSample.encode.take 8 = [1, 0, 0, 0, 255, 255, 255, 255] := by
    have hcount : count (utf8 text).length = [255, 255, 255, 255] := by rw [hsize]; rfl
    rw [encode, hstrings, List.length_singleton, List.flatMap_singleton, Binary.string,
      Binary.blob, hcount]
    rfl
  refine ⟨hgrown, hlength, ⟨append {} "", ?_, rfl⟩, fun hread => ?_⟩
  · rw [htake]
    exact fun position rest => rfl
  · have hfits :=
      (hgrown.indexed.reads_encode_iff hlength.isCount).mp hread text (by simp [hstrings])
    rw [TextFits, hsize] at hfits
    exact absurd hfits (by decide)

end Pool

end ScriptCompiler.Metadata
