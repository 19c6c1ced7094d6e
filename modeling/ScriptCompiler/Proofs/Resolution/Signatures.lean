import Mathlib.Logic.Function.Basic
import ScriptCompiler.Resolution.Match

/-!
# Signatures of types

Every type has one signature, and a signature spells no type but the one it is the signature of.
Matching is a recursion of its own, beside the one that yields signatures: `Signature.matches_iff`
compares the two, and `Signature.toType` shows that no two types share a signature.
-/

namespace ScriptCompiler

open Metadata

namespace Metadata

section

attribute [local simp] Signature.matches Signature.matchesAll Signature.ofType Signature.ofTypes

mutual

/-- A signature spells exactly one type. -/
theorem Signature.matches_iff : ∀ (s : Signature) (t : TypeRef),
    s.matches t = true ↔ s = .ofType t
  | .named n xs, t => by
    cases t with
    | named m ys => simp [Signature.matchesAll_iff xs ys]
    | parameter o i => cases o <;> simp
    | _ => simp
  | .typeParameter i, t | .methodParameter i, t => by
    cases t with
    | parameter o j => cases o <;> simp
    | _ => simp
  | .array s r, t => by
    cases t with
    | array e q => simp [Signature.matches_iff s e, and_comm]
    | parameter o j => cases o <;> simp
    | _ => simp
  | .byRef s, t => by
    cases t with
    | byRef e => simp [Signature.matches_iff s e]
    | parameter o j => cases o <;> simp
    | _ => simp
  | .pointer s, t => by
    cases t with
    | pointer e => simp [Signature.matches_iff s e]
    | parameter o j => cases o <;> simp
    | _ => simp

/-- Signatures spell exactly one list of types. -/
theorem Signature.matchesAll_iff : ∀ (ss : List Signature) (ts : List TypeRef),
    Signature.matchesAll ss ts = true ↔ ss = Signature.ofTypes ts
  | [], ts => by cases ts <;> simp
  | s :: ss, ts => by
    cases ts with
    | nil => simp
    | cons t ts => simp [Signature.matches_iff s t, Signature.matchesAll_iff ss ts]

end

end

mutual

/-- The type that a signature spells. -/
def Signature.toType : Signature → TypeRef
  | .named name arguments => .named name (Signature.toTypes arguments)
  | .typeParameter index => .parameter .type index
  | .methodParameter index => .parameter .method index
  | .array element rank => .array element.toType rank
  | .byRef target => .byRef target.toType
  | .pointer target => .pointer target.toType

/-- The types that signatures spell. -/
def Signature.toTypes : List Signature → List TypeRef
  | [] => []
  | s :: rest => s.toType :: Signature.toTypes rest

end

mutual

theorem Signature.toType_ofType : ∀ t : TypeRef, (Signature.ofType t).toType = t
  | .named _ xs => by rw [Signature.ofType, Signature.toType, Signature.toTypes_ofTypes xs]
  | .parameter o _ => by cases o <;> rfl
  | .array e _ => by rw [Signature.ofType, Signature.toType, Signature.toType_ofType e]
  | .byRef e => by rw [Signature.ofType, Signature.toType, Signature.toType_ofType e]
  | .pointer e => by rw [Signature.ofType, Signature.toType, Signature.toType_ofType e]

theorem Signature.toTypes_ofTypes : ∀ ts : List TypeRef,
    Signature.toTypes (Signature.ofTypes ts) = ts
  | [] => rfl
  | t :: ts => by
    rw [Signature.ofTypes, Signature.toTypes, Signature.toType_ofType t,
      Signature.toTypes_ofTypes ts]

end

/-- Different types have different signatures. -/
lemma Signature.ofType_injective : Function.Injective Signature.ofType :=
  Function.LeftInverse.injective Signature.toType_ofType

/-- The brackets of an array type hold as many commas in either text. -/
lemma rankText_eq (rank : UInt32) : rankText rank = "[" ++ commas (rank.toNat - 1) ++ "]" := by
  have hcommas : ∀ n, String.ofList (List.replicate n ',') = commas n := by
    intro n
    induction n with
    | zero => rfl
    | succ n ih =>
      rw [List.replicate_succ, ← List.singleton_append, String.ofList_append, ih]
      rfl
  rw [rankText, hcommas]

mutual

/-- A signature reads like its type, though one joins the texts of its arguments and the other
writes them one after the other. -/
theorem Signature.text_ofType : ∀ t : TypeRef, (Signature.ofType t).text = t.text
  | .named _ [] => rfl
  | .named name (x :: xs) => by
    change name ++ "<" ++ ",".intercalate
      ((Signature.ofType x).text :: Signature.texts (Signature.ofTypes xs)) ++ ">" = _
    rw [Signature.intercalate_texts xs, Signature.text_ofType x, TypeRef.text]
    simp only [String.append_assoc]
  | .parameter o _ => by cases o <;> rfl
  | .array e _ => by
    rw [Signature.ofType, Signature.text, TypeRef.text, Signature.text_ofType e, rankText_eq]
    simp only [String.append_assoc]
  | .byRef e => by rw [Signature.ofType, Signature.text, TypeRef.text, Signature.text_ofType e]
  | .pointer e => by rw [Signature.ofType, Signature.text, TypeRef.text, Signature.text_ofType e]

/-- Joined behind a first text, the texts of signatures are the further text of the types. -/
theorem Signature.intercalate_texts : ∀ (ts : List TypeRef) {first : String},
    ",".intercalate (first :: Signature.texts (Signature.ofTypes ts)) =
      first ++ TypeRef.furtherText ts
  | [], first => by
    rw [Signature.ofTypes, Signature.texts, TypeRef.furtherText, String.intercalate_singleton,
      String.append_empty]
  | t :: ts, first => by
    rw [Signature.ofTypes, Signature.texts, String.intercalate_cons_cons,
      Signature.intercalate_texts ts, Signature.text_ofType t, TypeRef.furtherText]
    simp only [String.append_assoc]

end

end Metadata

/-- The signature of a parameter: a reference to its type if it is passed by reference. -/
def Parameter.signature (q : Parameter) : Signature :=
  match q.mode with
  | .ref | .out => .byRef (.ofType q.type)
  | .value | .params => .ofType q.type

namespace Resolution

/-- Signatures fit exactly the parameters that have them. -/
lemma parametersMatch_iff (ss : List Signature) (qs : List Parameter) :
    parametersMatch ss qs = true ↔ ss = qs.map Parameter.signature := by
  induction ss generalizing qs with
  | nil => cases qs <;> simp [parametersMatch]
  | cons s ss ih =>
    cases qs with
    | nil => simp [parametersMatch]
    | cons q qs =>
      obtain ⟨name, type, mode⟩ := q
      cases mode with
      | value | params => simp [parametersMatch, ih, Parameter.signature, Signature.matches_iff]
      | ref | out =>
        cases s <;> simp [parametersMatch, ih, Parameter.signature, Signature.matches_iff]

/-- Matching is equality with signatures: of types, which no two types share and which read like
their types, and of parameters, position by position. -/
theorem matching_exact :
    (∀ (s : Signature) (t : TypeRef), s.matches t = true ↔ s = .ofType t) ∧
      Function.Injective Signature.ofType ∧
      (∀ (ss : List Signature) (qs : List Parameter),
        parametersMatch ss qs = true ↔ ss = qs.map Parameter.signature) ∧
      ∀ t : TypeRef, (Signature.ofType t).text = t.text :=
  ⟨Signature.matches_iff, Signature.ofType_injective, parametersMatch_iff, Signature.text_ofType⟩

end Resolution

end ScriptCompiler
