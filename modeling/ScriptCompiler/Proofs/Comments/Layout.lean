import Mathlib.Data.List.DropRight
import ScriptCompiler.Options.Basic
import ScriptCompiler.Source.Comment

/-!
# The layout of comments is stable

A comment of several lines is cut into lines, trimmed at two levels and put together again.  Both
levels drop what they do not want from either end of a list: blank characters from a line, and
empty lines from the text (`dropEnds`).  What is left is determined by this: nothing else was
dropped, and neither end of what is left should have been (`Firm`).

So a text in its new layout has the trimmed lines that it was made of, whichever way they were
joined, and begins with the indentation that they were given.  Nothing else of a text matters for
its layout, so laying it out again gives what the first text gives.
-/

namespace ScriptCompiler

/-! ## Dropping both ends -/

section Ends

variable {α : Type} {p : α → Bool} {l : List α}

/-- The list without the items at either end that `p` holds of. -/
def dropEnds (p : α → Bool) (l : List α) : List α :=
  (l.dropWhile p).rdropWhile p

/-- The test `p` fails at both ends of the list. -/
structure Firm (p : α → Bool) (l : List α) : Prop where
  head : ∀ x ∈ l.head?, p x = false
  last : ∀ x ∈ l.getLast?, p x = false

lemma dropEnds_eq_nil_iff : dropEnds p l = [] ↔ ∀ x ∈ l, p x = true := by
  rw [dropEnds, List.rdropWhile_eq_nil_iff]
  constructor
  · intro h x hx
    rw [← List.takeWhile_append_dropWhile (p := p) (l := l)] at hx
    rcases List.mem_append.mp hx with hx | hx
    · exact List.mem_takeWhile_imp hx
    · exact h x hx
  · exact fun h x hx => h x ((List.dropWhile_suffix p).subset hx)

lemma firm_dropEnds (p : α → Bool) (l : List α) : Firm p (dropEnds p l) where
  head x hx := by
    have hlead := List.head?_dropWhile_not p l
    obtain ⟨rest, hrest⟩ := List.head?_eq_some_iff.mp hx
    obtain ⟨tail, htail⟩ := List.rdropWhile_prefix p (l := l.dropWhile p)
    rw [← htail, show (l.dropWhile p).rdropWhile p = x :: rest from hrest] at hlead
    exact hlead
  last x hx := by
    obtain ⟨hne, rfl⟩ := List.mem_getLast?_eq_getLast hx
    exact Bool.eq_false_iff.mpr (List.rdropWhile_last_not p _ hne)

lemma mem_of_mem_dropEnds {x : α} (h : x ∈ dropEnds p l) : x ∈ l :=
  (List.dropWhile_suffix p).subset ((List.rdropWhile_prefix p _).subset h)

/-- Only what `p` holds of is dropped. -/
lemma exists_dropEnds (p : α → Bool) (l : List α) :
    ∃ before after, l = before ++ dropEnds p l ++ after ∧ ∀ x ∈ before ++ after, p x = true := by
  refine ⟨l.takeWhile p, (l.dropWhile p).rtakeWhile p, ?_, ?_⟩
  · rw [List.append_assoc, dropEnds, List.rdropWhile_append_rtakeWhile,
      List.takeWhile_append_dropWhile]
  · intro x hx
    rcases List.mem_append.mp hx with hx | hx
    · exact List.mem_takeWhile_imp hx
    · exact List.mem_rtakeWhile_imp hx

/-- What is left is the list between what `p` holds of, if its ends are firm. -/
lemma Firm.dropEnds_eq (hl : Firm p l) {before after : List α}
    (h : ∀ x ∈ before ++ after, p x = true) : dropEnds p (before ++ l ++ after) = l := by
  obtain ⟨hbefore, hafter⟩ := List.forall_mem_append.mp h
  cases hl' : l with
  | nil =>
    rw [dropEnds_eq_nil_iff, List.append_nil]
    exact h
  | cons x rest =>
    have hfirst : p x = false := hl.head x (by rw [hl']; rfl)
    rw [dropEnds, List.append_assoc, List.dropWhile_append_of_pos hbefore, List.cons_append,
      List.dropWhile_cons_of_neg (by simp [hfirst]), ← List.cons_append, ← hl']
    rw [List.rdropWhile, List.reverse_append, List.dropWhile_append_of_pos (by simpa using hafter)]
    refine List.rdropWhile_eq_self_iff.mpr fun hne => ?_
    rw [hl.last _ (List.getLast_mem_getLast? hne)]
    exact Bool.false_ne_true

lemma Firm.dropEnds_self (hl : Firm p l) : dropEnds p l = l := by
  simpa using @Firm.dropEnds_eq _ _ _ hl [] [] (by simp)

end Ends

/-! ## Lines -/

namespace Text

variable {mark : Char} {cs : List Char}

/-- The pieces between the occurrences of `mark` hold what is not `mark`. -/
lemma forall_mem_splitAtChar {q : Char → Prop} :
    (∀ piece ∈ splitAtChar mark cs, ∀ x ∈ piece, q x) ↔ ∀ x ∈ cs, x = mark ∨ q x := by
  induction cs with
  | nil => simp [splitAtChar]
  | cons x rest ih =>
    by_cases hx : x = mark
    · simp [splitAtChar, hx, ih]
    · rw [List.forall_mem_cons, ← ih]
      simp only [splitAtChar, hx, if_false, false_or]
      cases splitAtChar mark rest with
      | nil => simp
      | cons piece pieces => simp [and_assoc]

/-- A text in front of the first occurrence of `mark` is the first piece. -/
lemma splitAtChar_append (h : mark ∉ cs) (rest : List Char) :
    splitAtChar mark (cs ++ mark :: rest) = cs :: splitAtChar mark rest := by
  induction cs with
  | nil => simp [splitAtChar]
  | cons x cs ih =>
    obtain ⟨hx, hcs⟩ := not_or.mp (List.mem_cons.not.mp h)
    simp [splitAtChar, ih hcs, Ne.symm hx]

lemma splitAtChar_eq_singleton (h : mark ∉ cs) : splitAtChar mark cs = [cs] := by
  induction cs with
  | nil => rfl
  | cons x cs ih =>
    obtain ⟨hx, hcs⟩ := not_or.mp (List.mem_cons.not.mp h)
    simp [splitAtChar, ih hcs, Ne.symm hx]

lemma trim_eq_nil_iff : trim cs = [] ↔ ∀ x ∈ cs, isBlank x = true :=
  dropEnds_eq_nil_iff

/-- Blanks around a trimmed text are trimmed. -/
lemma trim_append {before after : List Char} (hcs : Firm isBlank cs)
    (h : ∀ x ∈ before ++ after, isBlank x = true) : trim (before ++ cs ++ after) = cs :=
  hcs.dropEnds_eq h

/-- Each line of a text, trimmed. -/
def trimmedLines (cs : List Char) : List (List Char) :=
  (splitAtChar '\n' cs).map trim

/-- A trimmed line has no blanks at its ends and no line feed inside. -/
lemma firm_of_mem_trimmedLines {line : List Char} (h : line ∈ trimmedLines cs) :
    Firm isBlank line ∧ '\n' ∉ line := by
  obtain ⟨piece, hpiece, rfl⟩ := List.mem_map.mp h
  have hnone : ∀ piece ∈ splitAtChar '\n' cs, ∀ x ∈ piece, x ≠ '\n' :=
    forall_mem_splitAtChar.mpr fun x _ => em (x = '\n')
  exact ⟨firm_dropEnds isBlank piece, fun hmem => hnone piece hpiece _ (mem_of_mem_dropEnds hmem) rfl⟩

end Text

namespace CommentLayout

open Text

/-- What a text may be given: an indentation of blanks on one line, and trimmed lines. -/
structure LaidOut (lead : List Char) (lines : List (List Char)) : Prop where
  blank : ∀ x ∈ lead, isBlank x = true ∧ x ≠ '\n' ∧ x ≠ '\r'
  trimmed : ∀ line ∈ lines, Firm isBlank line ∧ '\n' ∉ line

/-- The text of lines behind their indentation. -/
def joined (s : LineSeparator) (lead : List Char) (lines : List (List Char)) : List Char :=
  s.text.toList.intercalate (lines.map (lead ++ ·))

variable {content lead : List Char} {lines : List (List Char)}

lemma laidOut (content : List Char) : LaidOut (indentation content) (keptLines content) where
  blank x hx := by
    obtain ⟨hx, hreturn⟩ := List.mem_filter.mp hx
    have hx := List.mem_reverse.mp hx
    have hfeed := List.mem_takeWhile_imp hx
    have hlead := List.mem_reverse.mp ((List.takeWhile_prefix _).subset hx)
    exact ⟨List.mem_takeWhile_imp hlead, by simpa using hfeed, by simpa using hreturn⟩
  trimmed _ hline := firm_of_mem_trimmedLines (mem_of_mem_dropEnds hline)

/-- A separator is a line feed, with nothing but blanks in front of it. -/
lemma exists_separator (s : LineSeparator) : ∃ front, s.text.toList = front ++ ['\n'] ∧
    ∀ x ∈ front, isBlank x = true ∧ x ≠ '\n' := by
  cases s with
  | lf => exact ⟨[], by decide, by simp⟩
  | crlf => exact ⟨['\r'], by decide, by simp; decide⟩

/-- The lines are read off their text, whichever way they were joined. -/
lemma LaidOut.trimmedLines_joined (h : LaidOut lead lines) (hne : lines ≠ []) (s : LineSeparator) :
    trimmedLines (joined s lead lines) = lines := by
  obtain ⟨front, hfront, hblank⟩ := exists_separator s
  have hpiece : ∀ line ∈ lines, ∀ after, (∀ x ∈ after, isBlank x = true ∧ x ≠ '\n') →
      '\n' ∉ lead ++ line ++ after ∧ trim (lead ++ line ++ after) = line := by
    intro line hline after hafter
    obtain ⟨hfirm, hfeed⟩ := h.trimmed line hline
    refine ⟨?_, trim_append hfirm ?_⟩
    · simp only [List.mem_append, not_or]
      exact ⟨⟨fun hx => (h.blank _ hx).2.1 rfl, hfeed⟩, fun hx => (hafter _ hx).2 rfl⟩
    · intro x hx
      rcases List.mem_append.mp hx with hx | hx
      · exact (h.blank x hx).1
      · exact (hafter x hx).1
  clear h
  induction lines with
  | nil => exact absurd rfl hne
  | cons line rest ih =>
    cases rest with
    | nil =>
      obtain ⟨hfeed, htrim⟩ := hpiece line List.mem_cons_self [] (by simp)
      rw [List.append_nil] at hfeed htrim
      simp [joined, trimmedLines, splitAtChar_eq_singleton hfeed, htrim]
    | cons next rest =>
      obtain ⟨hfeed, htrim⟩ := hpiece line List.mem_cons_self front hblank
      have hjoined : joined s lead (line :: next :: rest) =
          (lead ++ line ++ front) ++ '\n' :: joined s lead (next :: rest) := by
        simp [joined, hfront]
      rw [hjoined, trimmedLines, splitAtChar_append hfeed, List.map_cons, htrim]
      exact congrArg _ (ih (by simp) fun other hother =>
        hpiece other (List.mem_cons_of_mem line hother))

/-- The text begins with the indentation of its lines. -/
lemma LaidOut.indentation_joined (h : LaidOut lead lines) (hne : lines ≠ [])
    (hfirm : Firm List.isEmpty lines) (s : LineSeparator) :
    indentation (joined s lead lines) = lead := by
  obtain ⟨line, rest, rfl⟩ := List.exists_cons_of_ne_nil hne
  have hline : line ≠ [] := by simpa using hfirm.head line rfl
  obtain ⟨x, chars, rfl⟩ := List.exists_cons_of_ne_nil hline
  have hx : isBlank x = false := (h.trimmed _ List.mem_cons_self).1.head x rfl
  obtain ⟨after, hafter⟩ : ∃ after, joined s lead ((x :: chars) :: rest) = lead ++ x :: after := by
    cases rest <;> simp [joined]
  have hleading : (joined s lead ((x :: chars) :: rest)).takeWhile isBlank = lead := by
    rw [hafter, List.takeWhile_append_of_pos fun y hy => (h.blank y hy).1]
    simp [hx]
  have hfeed : lead.reverse.takeWhile (· != '\n') = lead.reverse :=
    List.takeWhile_eq_self_iff.mpr fun y hy => by
      simpa using (h.blank y (List.mem_reverse.mp hy)).2.1
  rw [indentation, hleading, hfeed, List.reverse_reverse, List.filter_eq_self]
  exact fun y hy => by simpa using (h.blank y hy).2.2

end CommentLayout

open CommentLayout Text

/-- A text that is not blank is laid out as its lines behind its indentation. -/
lemma reformatComment_eq (content : String) (s : LineSeparator) :
    reformatComment content s.text =
      if keptLines content.toList = [] then none
      else some (String.ofList (joined s (indentation content.toList) (keptLines content.toList))) := by
  unfold reformatComment
  cases hlines : keptLines content.toList with
  | nil => rfl
  | cons line lines =>
    rw [if_neg (by simp), Option.some.injEq, ← String.toList_inj]
    simp only [joined, String.toList_intercalate, String.toList_ofList, List.map_map,
      Function.comp_def]

/-- A text of several lines has no lines to keep if and only if it is blank. -/
lemma keptLines_eq_nil_iff {content : List Char} :
    keptLines content = [] ↔ ∀ x ∈ content, isBlank x = true := by
  have hends : keptLines content = [] ↔ ∀ line ∈ trimmedLines content, line.isEmpty = true :=
    dropEnds_eq_nil_iff
  have hblank : isBlank '\n' = true := by decide
  rw [hends, trimmedLines, List.forall_mem_map]
  simp only [List.isEmpty_iff, trim_eq_nil_iff, forall_mem_splitAtChar]
  refine forall₂_congr fun x _ => ⟨?_, Or.inr⟩
  rintro (rfl | h)
  · exact hblank
  · exact h

/-- A comment of several lines is left out if and only if it is blank. -/
lemma reformatComment_eq_none_iff (content : String) (s : LineSeparator) :
    reformatComment content s.text = none ↔ ∀ x ∈ content.toList, isBlank x = true := by
  rw [reformatComment_eq, ← keptLines_eq_nil_iff]
  simp

/-- A comment is left out exactly if it is blank.  Otherwise its new layout is stable: laid out
again, with whichever separator, it becomes what the comment itself becomes.  Its trimmed lines are
those of the comment without the empty ones at both ends, and every line stands behind the same
indentation, which is blank and on one line. -/
theorem reformatComment_stable (content : String) (s₁ s₂ : LineSeparator) :
    (reformatComment content s₁.text = none ↔ ∀ x ∈ content.toList, isBlank x = true) ∧
      ∀ result, reformatComment content s₁.text = some result →
        reformatComment result s₂.text = reformatComment content s₂.text ∧
        (∃ before after,
          trimmedLines content.toList = before ++ trimmedLines result.toList ++ after ∧
          (∀ line ∈ before ++ after, line = []) ∧
          Firm List.isEmpty (trimmedLines result.toList)) ∧
        ∃ lead, (∀ x ∈ lead, isBlank x = true ∧ x ≠ '\n' ∧ x ≠ '\r') ∧
          result.toList = s₁.text.toList.intercalate
            ((trimmedLines result.toList).map (lead ++ ·)) := by
  refine ⟨reformatComment_eq_none_iff content s₁, fun result hresult => ?_⟩
  rw [reformatComment_eq] at hresult
  split at hresult
  · cases hresult
  rename_i hne
  obtain rfl := Option.some.inj hresult
  have hlaid := laidOut content.toList
  have hfirm : Firm List.isEmpty (keptLines content.toList) := firm_dropEnds _ _
  have hlines := hlaid.trimmedLines_joined hne s₁
  have hkept : keptLines (joined s₁ (indentation content.toList) (keptLines content.toList)) =
      keptLines content.toList :=
    (congrArg (dropEnds List.isEmpty) hlines).trans hfirm.dropEnds_self
  rw [String.toList_ofList, hlines]
  refine ⟨?_, ?_, indentation content.toList, hlaid.blank, rfl⟩
  · rw [reformatComment_eq, reformatComment_eq, String.toList_ofList, hkept,
      hlaid.indentation_joined hne hfirm]
  · obtain ⟨before, after, hdrop, hempty⟩ :=
      exists_dropEnds List.isEmpty (trimmedLines content.toList)
    exact ⟨before, after, hdrop, fun line hline => List.isEmpty_iff.mp (hempty line hline), hfirm⟩

end ScriptCompiler
