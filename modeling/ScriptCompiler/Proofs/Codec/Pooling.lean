import Mathlib.Data.List.Perm.Subperm
import ScriptCompiler.Metadata.Pool
import ScriptCompiler.Proofs.Codec.Reading

/-!
# Writing with a pool that grows

Tables are written while the pool is still being filled and read when it is complete.  What keeps
the two together is that a pool only ever grows at its end: a text keeps its index, so whatever was
written as an index is read as the same text from every pool that extends the one at hand.

`Writes` says this of a piece of a table, and also which texts the piece may add to the pool.  Its
reader may use a bound on the depth of what it reads; the statement asks for every bound that is at
least the number of bytes written.
-/

namespace ScriptCompiler.Metadata

open Binary
open Binary.Decoder

/-! ## The pool -/

namespace Pool

variable {p : Pool}

/-- The index finds every text where it is stored first, and nothing else. -/
def Indexed (p : Pool) : Prop :=
  ∀ s, p.index.lookup s = (p.strings.idxOf? s).map UInt32.ofNat

/-- Every text is stored once, and the index knows it. -/
structure Tidy (p : Pool) : Prop where
  nodup : p.strings.Nodup
  indexed : p.Indexed

lemma indexed_empty : Indexed {} :=
  fun _ => rfl

lemma tidy_empty : Tidy {} where
  nodup := List.nodup_nil
  indexed := indexed_empty

/-- What the index does not know is appended. -/
lemma intern_eq (p : Pool) (s : String) :
    p.intern s = ((p.index.lookup s).getD (UInt32.ofNat p.strings.length),
      if (p.index.lookup s).isSome then p else p.append s) := by
  unfold intern append
  cases h : p.index.lookup s <;> simp

/-- Interning keeps what is stored and adds at the end. -/
lemma strings_prefix_intern (p : Pool) (s : String) : p.strings <+: (p.intern s).2.strings := by
  unfold intern
  split
  · exact List.prefix_refl _
  · exact List.prefix_append _ _

lemma mem_strings_intern {s t : String} (ht : t ∈ (p.intern s).2.strings) :
    t ∈ p.strings ∨ t = s := by
  unfold intern at ht
  split at ht
  · exact .inl ht
  · rcases List.mem_append.mp ht with ht | ht
    · exact .inl ht
    · exact .inr (List.mem_singleton.mp ht)

lemma Indexed.append (hp : p.Indexed) (s : String) : (p.append s).Indexed := by
  intro t
  have hlast : (p.strings ++ [s]).idxOf? t =
      (p.strings.idxOf? t).or (if s = t then some p.strings.length else none) := by
    unfold List.idxOf?
    rw [List.findIdx?_append]
    by_cases hst : s = t <;> simp [hst]
  have hs := hp s
  have ht := hp t
  unfold Pool.append
  rw [hlast]
  by_cases hst : s = t
  · subst hst
    cases hfound : p.strings.idxOf? s <;> simp [hs, hfound]
  · rw [if_neg hst, Option.or_none, ← ht]
    split
    · rfl
    · rw [List.lookup_cons, beq_eq_false_iff_ne.mpr (Ne.symm hst)]

lemma Indexed.intern (hp : p.Indexed) (s : String) : (p.intern s).2.Indexed := by
  rw [intern_eq]
  dsimp only
  split
  · exact hp
  · exact hp.append s

/-- Interning adds a text only if it is not there. -/
lemma Tidy.intern (hp : p.Tidy) (s : String) : (p.intern s).2.Tidy := by
  refine ⟨?_, hp.indexed.intern s⟩
  rw [intern_eq, hp.indexed s]
  dsimp only
  split
  · exact hp.nodup
  · next hnone =>
    have hnew : s ∉ p.strings := by
      simpa [List.idxOf?_eq_none_iff] using hnone
    exact List.nodup_append.mpr ⟨hp.nodup, List.pairwise_singleton _ s, by grind⟩

/-- The index finds the first position of a text. -/
lemma Indexed.lookup_eq_some_iff (hp : p.Indexed) (hlength : IsCount p.strings.length) {s : String}
    {i : UInt32} : p.index.lookup s = some i ↔
      p.strings[i.toNat]? = some s ∧ ∀ j < i.toNat, p.strings[j]? ≠ some s := by
  have hindex : p.index.lookup s = some i ↔ p.strings.idxOf? s = some i.toNat := by
    rw [hp s, Option.map_eq_some_iff]
    constructor
    · rintro ⟨n, hn, rfl⟩
      have hlt := (List.idxOf?_eq_some_iff.mp hn).1
      rw [IsCount.toNat_ofNat (Nat.lt_trans hlt hlength), hn]
    · exact fun h => ⟨_, h, UInt32.ofNat_toNat⟩
  rw [hindex, List.idxOf?_eq_some_iff]
  grind

/-- A text is stored under the index that interning yields. -/
lemma Indexed.getElem?_intern (hp : p.Indexed) {s : String}
    (hlength : IsCount (p.intern s).2.strings.length) :
    (p.intern s).2.strings[(p.intern s).1.toNat]? = some s := by
  refine (((hp.intern s).lookup_eq_some_iff hlength).mp ?_).1
  unfold Pool.intern
  split
  · assumption
  · exact List.lookup_cons_self

/-- An index that is read from a pool is read alike from every pool that extends it. -/
lemma get_of_extends {p q : Pool} (hpq : p.strings <+: q.strings) {i : UInt32} {s : String}
    (h : p.strings[i.toNat]? = some s) : q.get i = .ok s := by
  have hq : q.strings[i.toNat]? = some s := by
    obtain ⟨rest, hrest⟩ := hpq
    rw [← hrest, List.getElem?_append_left (List.getElem?_eq_some_iff.1 h).1, h]
  rw [get, hq]

end Pool

/-! ## Pieces of tables -/

/-- What `e` writes, `read` reads as `a`: with any pool that extends the one that `e` leaves, and
with any bound that is at least the number of bytes.  To the pool `e` adds allowed texts only. -/
structure Writes {α : Type} (allowed : String → Prop) (e : Emit Bytes)
    (read : Pool → ℕ → Decoder DecodeError α) (a : α) : Prop where
  grows : ∀ p, p.strings <+: (e.run p).2.strings
  texts : ∀ p, ∀ s ∈ (e.run p).2.strings, s ∈ p.strings ∨ allowed s
  tidy : ∀ {p}, p.Tidy → (e.run p).2.Tidy
  indexed : ∀ {p}, p.Indexed → (e.run p).2.Indexed
  reads : ∀ {p q n}, p.Indexed → (e.run p).2.strings <+: q.strings → IsCount q.strings.length →
    (e.run p).1.length ≤ n → Reads (read q n) (e.run p).1 a

section

variable {α β : Type} {allowed : String → Prop} {e : Emit Bytes} {es : List (Emit Bytes)} {a : α}
  {b : β} {read : Pool → ℕ → Decoder DecodeError α}

/-- A shorter pool is no longer than one that a count can hold. -/
lemma isCount_of_extends {p q : Pool} (hpq : p.strings <+: q.strings)
    (hq : IsCount q.strings.length) : IsCount p.strings.length :=
  Nat.lt_of_le_of_lt hpq.length_le hq

lemma writes_name {s : String} (hs : allowed s) :
    Writes allowed (emitName s) (fun q _ => decodeName q) s where
  grows := fun p => p.strings_prefix_intern s
  texts := by
    intro p t ht
    rcases Pool.mem_strings_intern ht with ht | rfl
    · exact .inl ht
    · exact .inr hs
  tidy := fun hp => hp.intern s
  indexed := fun hp => hp.intern s
  reads := by
    intro p q n hp hpq hq _
    have hget := Pool.get_of_extends hpq (hp.getElem?_intern (isCount_of_extends hpq hq))
    change Reads (decodeName q) (Binary.word32 (p.intern s).1) s
    refine (reads_word32 (p.intern s).1).bind_nil ?_
    rw [hget]
    exact reads_pure s

/-- Bytes that no name goes into. -/
lemma writes_bytes {bs : Bytes} {d : Decoder DecodeError α} (h : Reads d bs a) :
    Writes allowed (pure bs) (fun _ _ => d) a where
  grows := fun _ => List.prefix_refl _
  texts := fun _ _ hs => .inl hs
  tidy := fun hp => hp
  indexed := fun hp => hp
  reads := fun _ _ _ _ => h

/-- What is read of two pieces, one after the other. -/
lemma Writes.append {e' : Emit Bytes} {k : Pool → ℕ → α → Decoder DecodeError β}
    (he : Writes allowed e read a) (he' : Writes allowed e' (fun q n => k q n a) b) :
    Writes allowed (do return (← e) ++ (← e')) (fun q n => read q n >>= k q n) b where
  grows := fun p => (he.grows p).trans (he'.grows _)
  texts := fun p s hs => (he'.texts _ s hs).elim (he.texts p s) .inr
  tidy := fun hp => he'.tidy (he.tidy hp)
  indexed := fun hp => he'.indexed (he.indexed hp)
  reads := by
    intro p q n hp hpq hq hn
    have hfirst := (he'.grows (e.run p).2).trans hpq
    have hp' := he.indexed hp
    change ((e.run p).1 ++ (e'.run (e.run p).2).1).length ≤ n at hn
    rw [List.length_append] at hn
    have hread := he.reads hp hfirst hq (Nat.le_trans (Nat.le_add_right _ _) hn)
    have hread' := he'.reads hp' hpq hq (Nat.le_trans (Nat.le_add_left _ _) hn)
    exact hread.bind hread'

lemma writes_nil : Writes allowed (emitAll id []) (fun _ _ => pure b) b :=
  writes_bytes (reads_pure b)

lemma Writes.cons {k : Pool → ℕ → α → Decoder DecodeError β} (he : Writes allowed e read a)
    (hes : Writes allowed (emitAll id es) (fun q n => k q n a) b) :
    Writes allowed (emitAll id (e :: es)) (fun q n => read q n >>= k q n) b :=
  he.append hes

lemma Writes.map (f : α → β) (he : Writes allowed e read a) :
    Writes allowed e (fun q n => do return f (← read q n)) (f a) where
  grows := he.grows
  texts := he.texts
  tidy := he.tidy
  indexed := he.indexed
  reads := fun hp hpq hq hn => (he.reads hp hpq hq hn).map f

/-- Items in a row. -/
lemma writes_all {emit : α → Emit Bytes} {items : List α}
    (h : ∀ a ∈ items, Writes allowed (emit a) read a) :
    Writes allowed (emitAll emit items) (fun q n => replicate (read q n) items.length) items := by
  induction items with
  | nil => exact writes_nil
  | cons a items ih =>
    have hrest := ih fun a ha => h a (List.mem_cons_of_mem _ ha)
    exact (h a List.mem_cons_self).append (hrest.map (a :: ·))

/-- Items behind their number. -/
lemma writes_list {emit : α → Emit Bytes} {items : List α} (hlength : IsCount items.length)
    (h : ∀ a ∈ items, Writes allowed (emit a) read a) :
    Writes allowed (emitList emit items) (fun q n => counted (read q n)) items := by
  refine (writes_bytes (reads_word32 (UInt32.ofNat items.length))).append ?_
  rw [hlength.toNat_ofNat]
  exact writes_all h

/-- The number of bytes left is a bound. -/
lemma Writes.bounded (h : Writes allowed e read a) :
    Writes allowed e (fun q _ => Decoder.bounded (read q)) a where
  grows := h.grows
  texts := h.texts
  tidy := h.tidy
  indexed := h.indexed
  reads := fun hp hpq hq _ => reads_bounded fun _ hdepth => h.reads hp hpq hq hdepth.le

/-- If the allowed texts are those of a pool, there are no more texts in the end than it has. -/
lemma Writes.length_strings_le {strings : List String}
    (h : Writes (· ∈ strings) e read a) : (e.run {}).2.strings.length ≤ strings.length := by
  have hsubset : (e.run {}).2.strings ⊆ strings := by
    intro s hs
    rcases h.texts {} s hs with hnil | hs
    · cases hnil
    · exact hs
  exact (List.subperm_of_subset (h.tidy Pool.tidy_empty).nodup hsubset).length_le

/-- What `emit` writes of `a`, `decode` reads as `a`. -/
abbrev RoundTrips (allowed : String → Prop) (emit : α → Emit Bytes)
    (decode : Pool → Decoder DecodeError α) (a : α) : Prop :=
  Writes allowed (emit a) (fun q _ => decode q) a

end

end ScriptCompiler.Metadata
