import Mathlib.Data.List.Chain
import ScriptCompiler.Lowering.Body
import ScriptCompiler.Proofs.Comments.Layout

/-!
# Comments in the printed script

A comment of several lines is printed as a block comment if its new layout has a line feed, and as
a line comment otherwise.  The block form keeps every text that does not close it, and laying a text
out brings no `*` and `/` together.  The line form is ended by four characters, of which only the
line feed asks for the block form.  So a comment breaks apart exactly if one line is kept of it and
one of the other three stands there.
-/

namespace ScriptCompiler

namespace Script

/-! ## Reading comments -/

/-- The characters that end a line of a script. -/
def lineEnds : List Char :=
  ['\n', '\r', '\u2028', '\u2029']

/-- Reads a block comment behind its opening mark, up to the first closing mark. -/
def scanBlock : List Char → Option (List Char × List Char)
  | [] => none
  | c :: rest =>
    if c = '*' ∧ rest.head? = some '/' then some ([], rest.tail)
    else (scanBlock rest).map (Prod.map (c :: ·) id)

/-- Reads the comment in front: its text, and what is behind it. -/
def scanComment : List Char → Option (List Char × List Char)
  | '/' :: '/' :: rest => some (rest.takeWhile (· ∉ lineEnds), rest.dropWhile (· ∉ lineEnds))
  | '/' :: '*' :: rest => scanBlock rest
  | _ => none

/-- No `*` stands right in front of a `/`. -/
def Unclosed (cs : List Char) : Prop :=
  cs.IsChain fun a b => ¬ (a = '*' ∧ b = '/')

variable {cs : List Char}

lemma unclosed_of_not_isInfix (h : ¬ ['*', '/'] <:+: cs) : Unclosed cs := by
  induction cs with
  | nil => exact .nil
  | cons c rest ih =>
    refine List.isChain_cons.mpr ⟨?_, ih fun hinfix => h (List.infix_cons hinfix)⟩
    rintro d hd ⟨rfl, rfl⟩
    obtain ⟨more, rfl⟩ := List.head?_eq_some_iff.mp hd
    exact h (List.prefix_append ['*', '/'] more).isInfix

/-- A block comment goes on up to its own end. -/
lemma scanBlock_of_unclosed (h : Unclosed cs) : scanBlock (cs ++ ['*', '/']) = some (cs, []) := by
  induction cs with
  | nil => rfl
  | cons c rest ih =>
    obtain ⟨hnext, hrest⟩ := List.isChain_cons.mp h
    have hopen : ¬ (c = '*' ∧ (rest ++ ['*', '/']).head? = some '/') := by
      rintro ⟨rfl, hslash⟩
      cases rest with
      | nil => cases hslash
      | cons d rest => exact hnext d rfl ⟨rfl, Option.some.inj hslash⟩
    rw [List.cons_append, scanBlock, if_neg hopen, ih hrest]
    rfl

/-- A line comment goes on up to the first character that ends a line. -/
lemma scanComment_line_iff :
    scanComment ('/' :: '/' :: cs) = some (cs, []) ↔ ∀ x ∈ cs, x ∉ lineEnds := by
  simp [scanComment, List.takeWhile_eq_self_iff, List.dropWhile_eq_nil_iff]

/-- Text without `*` may stand in front. -/
lemma Unclosed.behind (h : Unclosed cs) {front : List Char} (hfront : ∀ x ∈ front, x ≠ '*') :
    Unclosed (front ++ cs) := by
  induction front with
  | nil => exact h
  | cons x front ih =>
    obtain ⟨hx, hfront⟩ := List.forall_mem_cons.mp hfront
    exact List.isChain_cons.mpr ⟨fun _ _ hclosed => hx hclosed.1, ih hfront⟩

end Script

/-! ## The layout of a comment closes no comment -/

/-- A piece of a text stands in it; the first one stands at its beginning. -/
lemma Text.exists_splitAtChar_eq (mark : Char) (cs : List Char) :
    ∃ first others, splitAtChar mark cs = first :: others ∧ first <+: cs ∧
      ∀ piece ∈ others, piece <:+: cs := by
  induction cs with
  | nil => exact ⟨[], [], rfl, List.prefix_rfl, by simp⟩
  | cons c cs ih =>
    obtain ⟨first, others, hsplit, hfirst, hothers⟩ := ih
    by_cases hc : c = mark
    · refine ⟨[], first :: others, by rw [splitAtChar, if_pos hc, hsplit], List.nil_prefix, ?_⟩
      intro piece hpiece
      rcases List.mem_cons.mp hpiece with rfl | hpiece
      · exact List.infix_cons hfirst.isInfix
      · exact List.infix_cons (hothers piece hpiece)
    · refine ⟨c :: first, others, by rw [splitAtChar, if_neg hc, hsplit], ?_, ?_⟩
      · exact List.cons_prefix_cons.mpr ⟨rfl, hfirst⟩
      · exact fun piece hpiece => List.infix_cons (hothers piece hpiece)

namespace CommentLayout

open Script Text

variable {content lead : List Char} {lines : List (List Char)}

/-- The lines that are kept stand in the text. -/
lemma infix_of_mem_keptLines {line : List Char} (h : line ∈ keptLines content) :
    line <:+: content := by
  obtain ⟨piece, hpiece, rfl⟩ := List.mem_map.mp (mem_of_mem_dropEnds h)
  obtain ⟨before, after, htrim, -⟩ := exists_dropEnds isBlank piece
  have hline : trim piece <:+: piece := ⟨before, after, htrim.symm⟩
  obtain ⟨first, others, hsplit, hfirst, hothers⟩ := exists_splitAtChar_eq '\n' content
  rcases List.mem_cons.mp (hsplit ▸ hpiece) with rfl | hpiece
  · exact hline.trans hfirst.isInfix
  · exact hline.trans (hothers piece hpiece)

/-- Blanks and separators keep the lines apart. -/
lemma LaidOut.unclosed_joined (h : LaidOut lead lines) (hlines : ∀ line ∈ lines, Unclosed line)
    (s : LineSeparator) : Unclosed (joined s lead lines) := by
  have hlead : ∀ x ∈ lead, x ≠ '*' := by
    rintro x hx rfl
    have hblank := (h.blank _ hx).1
    exact absurd hblank (by decide)
  have hseparator : s.text.toList ≠ [] ∧ ∀ x ∈ s.text.toList, x ≠ '*' ∧ x ≠ '/' := by
    cases s <;> decide
  clear h
  induction lines with
  | nil => exact .nil
  | cons line rest ih =>
    obtain ⟨hline, hrest⟩ := List.forall_mem_cons.mp hlines
    cases rest with
    | nil => simpa [joined] using hline.behind hlead
    | cons next rest =>
      have hjoined : joined s lead (line :: next :: rest) =
          (lead ++ line) ++ (s.text.toList ++ joined s lead (next :: rest)) := by
        simp [joined]
      rw [hjoined]
      refine (hline.behind hlead).append
        ((ih hrest).behind fun x hx => (hseparator.2 x hx).1) ?_
      rintro x - y hy ⟨-, rfl⟩
      rw [List.head?_append_of_ne_nil _ hseparator.1] at hy
      exact (hseparator.2 _ (List.mem_of_mem_head? hy)).2 rfl

/-- There is a line feed between each two lines, and nowhere else. -/
lemma LaidOut.mem_joined_iff (h : LaidOut lead lines) (s : LineSeparator) :
    '\n' ∈ joined s lead lines ↔ 2 ≤ lines.length := by
  match lines with
  | [] => simp [joined]
  | [line] =>
    have hline := (h.trimmed line List.mem_cons_self).2
    have hlead : '\n' ∉ lead := fun hmem => (h.blank _ hmem).2.1 rfl
    simp [joined, hline, hlead]
  | line :: next :: rest =>
    obtain ⟨front, hfront, -⟩ := exists_separator s
    simp [joined, hfront]

end CommentLayout

namespace Script

open CommentLayout

/-- A comment of several lines is lowered to its kept lines behind their indentation. -/
lemma lowerStmt_comment_iff {c : Lowering.Context} {span : Span} {content text : String}
    {spliced : Bool} {s : Lowering.State} :
    (Lowering.lowerStmt c (.comment span .multiLine content) spliced s).1 = [.comment text] ↔
      keptLines content.toList ≠ [] ∧ text.toList =
        joined c.options.lineSeparator (indentation content.toList) (keptLines content.toList) := by
  have hstmts : (Lowering.lowerStmt c (.comment span .multiLine content) spliced s).1 =
      Lowering.commentStmts c .multiLine content := by
    rw [Lowering.lowerStmt]
    rfl
  rw [hstmts, Lowering.commentStmts, reformatComment_eq]
  by_cases hnil : keptLines content.toList = []
  · simp [hnil]
  · rw [if_neg hnil, and_iff_right hnil]
    simp only [List.cons.injEq, Stmt.comment.injEq, and_true]
    rw [← String.toList_inj, String.toList_ofList, eq_comm]

/-- A comment of several lines that does not hold `*/`, printed as a node of the script, is read as
one comment with all of its text if and only if two lines or more are kept of it, or no character
of its text ends a line. -/
theorem printed_comment_whole_iff (c : Lowering.Context) (span : Span) (content text : String)
    (hclosed : ¬ ['*', '/'] <:+: content.toList) (spliced : Bool) (s : Lowering.State)
    (hnode : (Lowering.lowerStmt c (.comment span .multiLine content) spliced s).1 =
      [.comment text]) (layout : Layout) :
    layout.stmtText (.comment text) = commentText text ++ layout.newline ∧
      (scanComment (commentText text).toList = some (text.toList, []) ↔
        2 ≤ (keptLines content.toList).length ∨ ∀ x ∈ text.toList, x ∉ lineEnds) := by
  refine ⟨by rw [Layout.stmtText, Stmt.inline], ?_⟩
  have hlaid := laidOut content.toList
  have hlines : ∀ line ∈ keptLines content.toList, Unclosed line := fun line hline =>
    List.IsChain.infix (unclosed_of_not_isInfix hclosed) (infix_of_mem_keptLines hline)
  obtain ⟨-, htext⟩ := lowerStmt_comment_iff.mp hnode
  by_cases htwo : 2 ≤ (keptLines content.toList).length
  · have hfeed : '\n' ∈ text.toList := htext ▸ (hlaid.mem_joined_iff _).mpr htwo
    have hopen : Unclosed text.toList := htext ▸ hlaid.unclosed_joined hlines _
    have hblock : (commentText text).toList = '/' :: '*' :: (text.toList ++ ['*', '/']) := by
      simp [commentText, hfeed]
    rw [hblock]
    exact iff_of_true (scanBlock_of_unclosed hopen) (.inl htwo)
  · have hfeed : '\n' ∉ text.toList := htext ▸ mt (hlaid.mem_joined_iff _).mp htwo
    have hline : (commentText text).toList = '/' :: '/' :: text.toList := by
      simp [commentText, hfeed]
    rw [hline, scanComment_line_iff, or_iff_right htwo]

/-- A `*` and a `/` on lines of their own. -/
theorem printed_comment_whole_iff_marks :
    (¬ ['*', '/'] <:+: "one *\n/ two".toList ∧
      (Lowering.lowerStmt {} (.comment {} .multiLine "one *\n/ two") false {}).1 =
        [.comment "one *\n/ two"]) ∧
      (scanComment (commentText "one *\n/ two").toList = some ("one *\n/ two".toList, []) ↔
        2 ≤ (keptLines "one *\n/ two".toList).length ∨
          ∀ x ∈ "one *\n/ two".toList, x ∉ lineEnds) := by
  have hclosed : ¬ ['*', '/'] <:+: "one *\n/ two".toList := by decide +kernel
  have hnode : (Lowering.lowerStmt {} (.comment {} .multiLine "one *\n/ two") false {}).1 =
      [.comment "one *\n/ two"] := lowerStmt_comment_iff.mpr (by decide +kernel)
  exact ⟨⟨hclosed, hnode⟩, (printed_comment_whole_iff {} {} _ _ hclosed false {} hnode {}).2⟩

/-- A carriage return ends the comment, and what stands behind it runs. -/
theorem carriageReturn_ends_comment :
    ¬ ['*', '/'] <:+: "note\rrun()".toList ∧
      (Lowering.lowerStmt {} (.comment {} .multiLine "note\rrun()") false {}).1 =
        [.comment "note\rrun()"] ∧
      ({} : Layout).stmtText (.comment "note\rrun()") = "//note\rrun()\n" ∧
      scanComment "//note\rrun()".toList = some ("note".toList, "\rrun()".toList) := by
  refine ⟨?_, lowerStmt_comment_iff.mpr ?_, ?_, ?_⟩ <;> decide +kernel

end Script

end ScriptCompiler
