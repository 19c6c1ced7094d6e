import Mathlib.Data.List.Basic
import ScriptCompiler.Number.Double
import ScriptCompiler.Text.Identifier
import ScriptCompiler.Text.Quoted

/-!
# Tokens of a script

A lexer for the tokens that expressions consist of: words, numerals, string literals and marks.
A token always takes as many characters as it can, so `a--b` holds the mark `--`, and a numeral
takes a dot behind it, so `5.x` holds no member access.  Two slashes, or a slash and an asterisk,
open a comment and not a token.

Which characters names consist of, and which number a numeral is, are parameters (`Lexis`).  In
ECMAScript a name opens with a character of Unicode's class ID_Start, `$` or `_` and goes on with
those of ID_Continue, `$` and the two joiners; the printer leaves a key without quotes by classes
of its own, and the two agree on the first 128 characters only.

`Spells` says of a piece of text that the lexer reads it as given tokens, whatever stands behind
it as long as this does not run into the last token.  Pieces are put together by two rules: with a
blank between them, and side by side if the last token of the one may stand in front of the first
token of the other.
-/

namespace ScriptCompiler.Script

/-! ## Statements about the characters of a text

They are decided by looking at these characters only, and not at all characters that there are. -/

section Characters

variable {P : Char → Prop} [DecidablePred P]

instance (priority := 2000) decidableForallChars (cs : List Char) : Decidable (∀ c ∈ cs, P c) :=
  List.decidableBAll P cs

instance (priority := 2000) decidableForallChar? (c? : Option Char) : Decidable (∀ c ∈ c?, P c) :=
  decidable_of_iff (∀ c ∈ c?.toList, P c) (by simp)

instance (priority := 2000) decidableExistsChar? (c? : Option Char) : Decidable (∃ c ∈ c?, P c) :=
  decidable_of_iff (¬ ∀ c ∈ c?.toList, ¬ P c) (by cases c? <;> simp)

end Characters

variable {c : Char}

/-! ## Names and numerals -/

/-- What the lexer takes from the language: the characters that open and continue a name, which are
fixed among the first 128 only, and the value of a numeral. -/
class Lexis where
  opens : Char → Bool
  continues : Char → Bool
  value : String → Option Double
  opens_ascii {c : Char} : c.toNat < 128 → opens c = (c.isAlpha || c == '_' || c == '$')
  continues_ascii {c : Char} :
    c.toNat < 128 → continues c = (c.isAlphanum || c == '_' || c == '$')

/-- A property of the first 128 characters is checked one by one. -/
lemma forall_ascii {P : Char → Prop} (h : ∀ n < 128, P (Char.ofNat n)) (hc : c.toNat < 128) :
    P c := by
  have hchar := h c.toNat hc
  rwa [Char.ofNat_toNat] at hchar

/-- Below the other ranges of a table only its first ranges count. -/
lemma inRanges_take {table : List (ℕ × ℕ)} {k bound n : ℕ}
    (hbound : ∀ r ∈ table.drop k, bound ≤ r.1) (hn : n < bound) :
    Text.inRanges table n = Text.inRanges (table.take k) n := by
  have hothers : (table.drop k).any (fun r => r.1 ≤ n && n ≤ r.2) = false := by
    refine List.any_eq_false.2 fun r hr => ?_
    have hle := hbound r hr
    simp only [Bool.and_eq_true, decide_eq_true_eq, not_and]
    omega
  unfold Text.inRanges
  conv_lhs => rw [← List.take_append_drop k table, List.any_append, hothers, Bool.or_false]

lemma isAlphabetic_ascii (hc : c.toNat < 128) : Text.isAlphabetic c = c.isAlpha := by
  unfold Text.isAlphabetic
  rw [inRanges_take (k := 2) (by decide +kernel) hc]
  refine forall_ascii
    (P := fun c => Text.inRanges (Text.alphabeticRanges.take 2) c.toNat = c.isAlpha) ?_ hc
  decide

lemma isNumeric_ascii (hc : c.toNat < 128) : Text.isNumeric c = c.isDigit := by
  unfold Text.isNumeric
  rw [inRanges_take (k := 1) (by decide +kernel) hc]
  refine forall_ascii
    (P := fun c => Text.inRanges (Text.numericRanges.take 1) c.toNat = c.isDigit) ?_ hc
  decide

namespace Lexis

/-- Whether the text is a name. -/
def isName [Lexis] (name : String) : Bool :=
  name.toList.head?.any opens && name.toList.tail.all continues

/-- A name opens and continues as one. -/
lemma isName_iff [Lexis] {name : String} : isName name = true ↔
    ∃ c cs, name.toList = c :: cs ∧ opens c = true ∧ ∀ d ∈ cs, continues d = true := by
  cases hchars : name.toList with
  | nil => simp [isName, hchars]
  | cons c cs => simp [isName, hchars]

/-- Names of letters, digits, underscores and dollar signs among the first 128 characters. -/
@[reducible] def ascii (value : String → Option Double) : Lexis where
  opens c := c.toNat < 128 && (c.isAlpha || c == '_' || c == '$')
  continues c := c.toNat < 128 && (c.isAlphanum || c == '_' || c == '$')
  value := value
  opens_ascii hc := by rw [decide_eq_true hc, Bool.true_and]
  continues_ascii hc := by rw [decide_eq_true hc, Bool.true_and]

/-- Whether the text is such a name. -/
def isAsciiName (name : String) : Bool :=
  (ascii fun _ => none).isName name

/-- These are names in every language. -/
lemma isName_of_ascii [Lexis] {name : String} (h : isAsciiName name = true) :
    isName name = true := by
  obtain ⟨c, cs, hchars, hc, hcs⟩ := (@isName_iff (ascii _) _).1 h
  refine isName_iff.2 ⟨c, cs, hchars, ?_, fun d hd => ?_⟩
  · obtain ⟨hascii, hclass⟩ := Bool.and_eq_true_iff.1 hc
    rw [opens_ascii (of_decide_eq_true hascii), hclass]
  · obtain ⟨hascii, hclass⟩ := Bool.and_eq_true_iff.1 (hcs d hd)
    rw [continues_ascii (of_decide_eq_true hascii), hclass]

/-- The classes by which the printer finds that a key needs no quotes. -/
@[reducible] def printed (value : String → Option Double) : Lexis where
  opens := Text.opensIdentifier
  continues := Text.continuesIdentifier
  value := value
  opens_ascii hc := by rw [Text.opensIdentifier, isAlphabetic_ascii hc]
  continues_ascii hc := by
    rw [Text.continuesIdentifier, Text.isAlphanumeric, isAlphabetic_ascii hc, isNumeric_ascii hc,
      Char.isAlphanum]

end Lexis

/-- A token of an expression. -/
inductive Token where
  /-- An identifier or keyword. -/
  | word (name : String)
  | numeral (text : String)
  /-- A string literal with the given value. -/
  | literal (value : String)
  /-- An operator, a bracket or a separator. -/
  | mark (text : String)
deriving DecidableEq, Repr

open Lexis (opens continues opens_ascii continues_ascii isName)

namespace Token

/-- All marks, the longest first. -/
def marks : List String :=
  [">>>=",
   "...", "===", "!==", "**=", "<<=", ">>=", ">>>", "&&=", "||=", "??=",
   "=>", "==", "!=", "<=", ">=", "&&", "||", "??", "?.", "++", "--", "+=", "-=", "*=", "/=", "%=",
   "&=", "|=", "^=", "<<", ">>", "**",
   "\x7b", "\x7d", "(", ")", "[", "]", ".", ";", ",", "<", ">", "+", "-", "*", "/", "%", "&", "|",
   "^", "!", "~", "?", ":", "="]

/-! ## The lexer -/

/-- What a character stands for behind a backslash. -/
def escapes : List (Char × Char) :=
  [('"', '"'), ('\\', '\\'), ('/', '/'), ('b', '\x08'), ('f', '\x0c'), ('n', '\n'), ('r', '\r'),
   ('t', '\t')]

/-- Reads a string literal behind its opening quote, up to the closing one. -/
def scanText : List Char → Option (List Char × List Char)
  | [] => none
  | c :: rest =>
    if c = '"' then some ([], rest)
    else if c = '\\' then
      match rest with
      | 'u' :: h₁ :: h₂ :: h₃ :: h₄ :: rest => do
        let n ← Text.hexValue? [h₁, h₂, h₃, h₄]
        if n.isValidChar then (scanText rest).map (Prod.map (Char.ofNat n :: ·) id) else none
      | e :: rest => do
        let meaning ← escapes.lookup e
        (scanText rest).map (Prod.map (meaning :: ·) id)
      | [] => none
    else if c = '\n' ∨ c = '\r' then none
    else (scanText rest).map (Prod.map (c :: ·) id)

/-- Reads the dot in front and the digits behind it, if there is a dot. -/
def scanFraction : List Char → List Char × List Char
  | [] => ([], [])
  | c :: rest =>
    if c = '.' then ('.' :: rest.takeWhile Char.isDigit, rest.dropWhile Char.isDigit)
    else ([], c :: rest)

/-- Reads a numeral: digits, and possibly a dot and more digits.  No identifier may follow it
directly. -/
def scanNumeral [Lexis] (cs : List Char) : Option (Token × List Char) :=
  let (fraction, behind) := scanFraction (cs.dropWhile Char.isDigit)
  if behind.head?.any continues then none
  else some (.numeral (String.ofList (cs.takeWhile Char.isDigit ++ fraction)), behind)

/-- Whether the characters open a comment. -/
def opensComment (cs : List Char) : Bool :=
  ['/', '/'].isPrefixOf cs || ['/', '*'].isPrefixOf cs

/-- Reads the longest mark in front. -/
def scanMark (cs : List Char) : Option (Token × List Char) :=
  if opensComment cs then none
  else (marks.find? fun m => m.toList.isPrefixOf cs).map fun m => (.mark m, cs.drop m.toList.length)

/-- Reads the token in front, and what is behind it. -/
def scan [Lexis] : List Char → Option (Token × List Char)
  | [] => none
  | c :: rest =>
    if opens c then
      some (.word (String.ofList (c :: rest.takeWhile continues)), rest.dropWhile continues)
    else if c.isDigit then scanNumeral (c :: rest)
    else if c = '"' then
      (scanText rest).map fun (value, rest) => (.literal (String.ofList value), rest)
    else scanMark (c :: rest)

/-- The tokens of a text; `none` if something in it is no token. -/
def lex [Lexis] (cs : List Char) : Option (List Token) :=
  match cs with
  | [] => some []
  | c :: rest =>
    if c.isWhitespace then lex rest
    else
      match scan (c :: rest) with
      | none => none
      | some (t, behind) =>
        if behind.length < (c :: rest).length then (lex behind).map (t :: ·) else none
termination_by cs.length
decreasing_by
  · exact Nat.lt_succ_self _
  · assumption

/-! ## Writing tokens -/

/-- The characters of a token. -/
def chars : Token → List Char
  | .word name => name.toList
  | .numeral text => text.toList
  | .literal value => (Text.literal value).toList
  | .mark text => text.toList

/-- Digits, or digits around a dot. -/
def IsNumeral (cs : List Char) : Prop :=
  ∃ whole, whole ≠ [] ∧ (∀ c ∈ whole, c.isDigit) ∧
    (cs = whole ∨ ∃ fraction, (∀ c ∈ fraction, c.isDigit) ∧ cs = whole ++ '.' :: fraction)

/-- The token has the form that its kind asks for. -/
def Valid [Lexis] : Token → Prop
  | .word name => isName name = true
  | .numeral text => IsNumeral text.toList
  | .literal _ => True
  | .mark text => text ∈ marks

/-- Whether the mark ends where `c` stands right behind it. -/
def markStopsBefore (m : String) (c : Char) : Bool :=
  marks.all (fun longer => !(m.toList ++ [c]).isPrefixOf longer.toList) &&
    !opensComment (m.toList ++ [c])

/-- Whether the token ends where `c` stands right behind it. -/
def stopsBefore [Lexis] (t : Token) (c : Char) : Bool :=
  match t with
  | .word _ => !continues c
  | .numeral _ => !continues c && !c.isDigit && c != '.'
  | .literal _ => true
  | .mark m => markStopsBefore m c

/-! ## Reading one token -/

/-- A run of characters of a class ends where a character of another class follows. -/
lemma takeWhile_append_exact {p : Char → Bool} {run rest : List Char} (hrun : ∀ c ∈ run, p c)
    (hrest : ∀ c ∈ rest.head?, p c = false) : (run ++ rest).takeWhile p = run := by
  rw [List.takeWhile_append_of_pos hrun]
  cases rest with
  | nil => rw [List.takeWhile_nil, List.append_nil]
  | cons c rest => rw [List.takeWhile_cons_of_neg (by simp [hrest c rfl]), List.append_nil]

lemma dropWhile_append_exact {p : Char → Bool} {run rest : List Char} (hrun : ∀ c ∈ run, p c)
    (hrest : ∀ c ∈ rest.head?, p c = false) : (run ++ rest).dropWhile p = rest := by
  rw [List.dropWhile_append_of_pos hrun]
  cases rest with
  | nil => rfl
  | cons c rest => rw [List.dropWhile_cons_of_neg (by simp [hrest c rfl])]

/-- Control characters are written by four hexadecimal digits. -/
lemma hexValue?_hexPadded {n : ℕ} (hn : n < 32) :
    ∃ h₁ h₂ h₃ h₄, (Text.hexPadded 4 n).toList = [h₁, h₂, h₃, h₄] ∧
      Text.hexValue? [h₁, h₂, h₃, h₄] = some n := by
  have hall : ∀ n < 32, (Text.hexPadded 4 n).toList.length = 4 ∧
      Text.hexValue? (Text.hexPadded 4 n).toList = some n := by
    decide
  obtain ⟨hlength, hvalue⟩ := hall n hn
  match hdigits : (Text.hexPadded 4 n).toList, hlength with
  | [h₁, h₂, h₃, h₄], _ =>
    rw [hdigits] at hvalue
    exact ⟨h₁, h₂, h₃, h₄, rfl, hvalue⟩

/-- A character of a string literal is read off the text that is written for it. -/
lemma scanText_literalChar (c : Char) (more : List Char) :
    scanText ((Text.literalChar c).toList ++ more) =
      (scanText more).map (Prod.map (c :: ·) id) := by
  unfold Text.literalChar
  split_ifs with hquote hbackslash hline hreturn htab hback hfeed hcontrol
  · subst hquote; rfl
  · subst hbackslash; rfl
  · subst hline; rfl
  · subst hreturn; rfl
  · subst htab; rfl
  · have hc : c = '\x08' := Char.toNat_inj.1 hback
    subst hc; rfl
  · have hc : c = '\x0c' := Char.toNat_inj.1 hfeed
    subst hc; rfl
  · obtain ⟨h₁, h₂, h₃, h₄, hdigits, hvalue⟩ := hexValue?_hexPadded hcontrol
    have htext : ("\\u" ++ Text.hexPadded 4 c.toNat).toList ++ more =
        '\\' :: 'u' :: h₁ :: h₂ :: h₃ :: h₄ :: more := by
      rw [String.toList_append, hdigits]
      rfl
    have hvalid : c.toNat.isValidChar := c.valid
    rw [htext, scanText, if_neg (by decide), if_pos rfl, hvalue]
    simp only [Option.bind_eq_bind, Option.bind_some, if_pos hvalid, Char.ofNat_toNat]
  · have hother : ¬ (c = '\n' ∨ c = '\r') := by tauto
    rw [Char.toString_eq_singleton, String.toList_singleton, List.singleton_append,
      scanText.eq_def]
    dsimp only
    rw [if_neg hquote, if_neg hbackslash, if_neg hother]

/-- A literal is scanned to its quote. -/
lemma scanText_literalChars (value more : List Char) :
    scanText (value.flatMap (fun c => (Text.literalChar c).toList) ++ '"' :: more) =
      some (value, more) := by
  induction value with
  | nil => rw [List.flatMap_nil, List.nil_append, scanText.eq_def]; rfl
  | cons c value ih =>
    rw [List.flatMap_cons, List.append_assoc, scanText_literalChar, ih]
    rfl

/-- The first two characters tell whether a comment opens. -/
lemma opensComment_append {cs rest : List Char} (hcs : 2 ≤ cs.length) :
    opensComment (cs ++ rest) = opensComment cs := by
  match cs, hcs with
  | a :: b :: cs, _ => simp [opensComment, List.isPrefixOf]

section Scan

variable [Lexis] {rest : List Char}

/-- A name is scanned as a word. -/
lemma scan_word {name : String} (hname : isName name = true)
    (hrest : ∀ c ∈ rest.head?, (word name).stopsBefore c) :
    scan (name.toList ++ rest) = some (.word name, rest) := by
  obtain ⟨c, cs, hcs, hc, hrun⟩ := Lexis.isName_iff.1 hname
  have hstop : ∀ c ∈ rest.head?, continues c = false := by
    intro c hc
    simpa [stopsBefore] using hrest c hc
  rw [hcs, List.cons_append, scan, if_pos hc, takeWhile_append_exact hrun hstop,
    dropWhile_append_exact hrun hstop, ← hcs, String.ofList_toList]

lemma not_opens_of_isDigit (hc : c.isDigit) : opens c = false := by
  have hascii : c.toNat < 128 := by
    have hle : c.toNat ≤ 57 := (Char.isDigit_iff_toNat.1 hc).2
    omega
  rw [opens_ascii hascii]
  refine forall_ascii (P := fun c => c.isDigit → (c.isAlpha || c == '_' || c == '$') = false)
    ?_ hascii hc
  decide

/-- A numeral is read if its digits are those in front, and what is behind it does not belong to
it. -/
lemma scanNumeral_append {text : List Char} (htext : IsNumeral text)
    (hrest : ∀ c ∈ rest.head?, (numeral (String.ofList text)).stopsBefore c) :
    scanNumeral (text ++ rest) = some (.numeral (String.ofList text), rest) := by
  have hdigit : ∀ c ∈ rest.head?, c.isDigit = false := by
    intro c hc
    have hstop := hrest c hc
    simp only [stopsBefore, Bool.and_eq_true, Bool.not_eq_true'] at hstop
    exact hstop.1.2
  have hword : ¬ rest.head?.any continues = true := by
    intro hany
    obtain ⟨c, hc, hcontinues⟩ := (Option.any_eq_true _ _).1 hany
    have hstop := hrest c hc
    simp [stopsBefore, hcontinues] at hstop
  obtain ⟨whole, -, hwhole, rfl | ⟨fraction, hfraction, rfl⟩⟩ := htext
  · have hfraction : scanFraction rest = ([], rest) := by
      cases rest with
      | nil => rfl
      | cons c rest =>
        have hc : c ≠ '.' := by
          rintro rfl
          have hstop := hrest '.' rfl
          simp [stopsBefore] at hstop
        rw [scanFraction, if_neg hc]
    unfold scanNumeral
    rw [takeWhile_append_exact hwhole hdigit, dropWhile_append_exact hwhole hdigit, hfraction]
    dsimp only
    rw [if_neg hword, List.append_nil]
  · have hdot : ∀ c ∈ ('.' :: (fraction ++ rest)).head?, c.isDigit = false := by
      intro c hc
      cases hc
      decide
    unfold scanNumeral
    rw [List.append_assoc, List.cons_append, takeWhile_append_exact hwhole hdot,
      dropWhile_append_exact hwhole hdot, scanFraction, if_pos rfl,
      takeWhile_append_exact hfraction hdigit, dropWhile_append_exact hfraction hdigit]
    dsimp only
    rw [if_neg hword]

/-- A numeral is scanned whole. -/
lemma scan_numeral {text : String} (htext : IsNumeral text.toList)
    (hrest : ∀ c ∈ rest.head?, (numeral text).stopsBefore c) :
    scan (text.toList ++ rest) = some (.numeral text, rest) := by
  have hread := scanNumeral_append htext (by rwa [String.ofList_toList])
  rw [String.ofList_toList] at hread
  obtain ⟨whole, hne, hwhole, hcases⟩ := htext
  obtain ⟨c, more, hmore, hc⟩ : ∃ c more, text.toList = c :: more ∧ c.isDigit := by
    obtain ⟨c, whole, rfl⟩ := List.exists_cons_of_ne_nil hne
    have hc := hwhole c List.mem_cons_self
    rcases hcases with heq | ⟨fraction, -, heq⟩
    · exact ⟨c, _, heq, hc⟩
    · exact ⟨c, _, heq, hc⟩
  rw [hmore, List.cons_append] at hread ⊢
  rw [scan, if_neg (by rw [not_opens_of_isDigit hc]; decide), if_pos hc, hread]

/-- A literal is scanned as its value. -/
lemma scan_literal (value : String) :
    scan ((Text.literal value).toList ++ rest) = some (.literal value, rest) := by
  have htext : (Text.literal value).toList ++ rest =
      '"' :: (value.toList.flatMap (fun c => (Text.literalChar c).toList) ++ '"' :: rest) := by
    simp [Text.literal, String.toList_join, List.flatMap_map]
  rw [htext, scan,
    if_neg (by rw [opens_ascii (by decide)]; decide), if_neg (by decide), if_pos rfl,
    scanText_literalChars]
  simp [String.ofList_toList]

/-- No mark opens a comment. -/
lemma opensComment_mark {m : String} (hm : m ∈ marks)
    (hrest : ∀ c ∈ rest.head?, (mark m).stopsBefore c) :
    opensComment (m.toList ++ rest) = false := by
  cases rest with
  | nil =>
    have hall : ∀ m ∈ marks, opensComment m.toList = false := by decide
    rw [List.append_nil, hall m hm]
  | cons c rest =>
    have hlength : 2 ≤ (m.toList ++ [c]).length := by
      have hall : ∀ m ∈ marks, 1 ≤ m.toList.length := by decide
      have hone := hall m hm
      simp only [List.length_append, List.length_singleton]
      omega
    have hstop := hrest c rfl
    simp only [stopsBefore, markStopsBefore, Bool.and_eq_true, Bool.not_eq_true'] at hstop
    rw [List.append_cons, opensComment_append hlength, hstop.2]

/-- No mark that is longer, or as long and listed before, is in front as well. -/
lemma find?_marks {m : String} (hm : m ∈ marks)
    (hrest : ∀ c ∈ rest.head?, (mark m).stopsBefore c) :
    marks.find? (fun n => n.toList.isPrefixOf (m.toList ++ rest)) = some m := by
  have hsorted : marks.Pairwise fun a b => a ≠ b ∧ b.toList.length ≤ a.toList.length := by
    decide
  obtain ⟨before, behind, hsplit⟩ := List.append_of_mem hm
  refine List.find?_eq_some_iff_append.2 ⟨?_, before, behind, hsplit, ?_⟩
  · exact List.isPrefixOf_iff_prefix.2 (List.prefix_append _ _)
  · intro a ha
    rw [hsplit] at hsorted
    obtain ⟨hne, hlength⟩ := (List.pairwise_append.1 hsorted).2.2 a ha m List.mem_cons_self
    rw [Bool.not_eq_true', Bool.eq_false_iff]
    intro hfront
    have hfront : a.toList <+: m.toList ++ rest := List.isPrefixOf_iff_prefix.1 hfront
    have hlonger : m.toList <+: a.toList :=
      List.prefix_of_prefix_length_le (List.prefix_append _ _) hfront hlength
    obtain ⟨extra, hextra⟩ := hlonger
    cases extra with
    | nil => exact hne (String.toList_injective (by rw [← hextra, List.append_nil]))
    | cons c extra =>
      -- the character behind `m` would go on as the longer mark does
      rw [← hextra, List.prefix_append_right_inj] at hfront
      have hc : c ∈ rest.head? := by
        obtain ⟨more, rfl⟩ := hfront
        rfl
      have hstop := hrest c hc
      simp only [stopsBefore, markStopsBefore, Bool.and_eq_true, List.all_eq_true,
        Bool.not_eq_true'] at hstop
      have hmem : a ∈ marks := hsplit ▸ List.mem_append_left _ ha
      have hno := hstop.1 a hmem
      rw [← hextra, Bool.eq_false_iff] at hno
      exact hno (List.isPrefixOf_iff_prefix.2 ⟨extra, by simp⟩)

/-- A mark is scanned whole. -/
lemma scan_mark {m : String} (hm : m ∈ marks)
    (hrest : ∀ c ∈ rest.head?, (mark m).stopsBefore c) :
    scan (m.toList ++ rest) = some (.mark m, rest) := by
  have hread : scanMark (m.toList ++ rest) = some (.mark m, rest) := by
    unfold scanMark
    rw [opensComment_mark hm hrest, find?_marks hm hrest]
    simp
  have hall : ∀ m ∈ marks, ∃ c ∈ m.toList.head?, c.toNat < 128 ∧
      (c.isAlpha || c == '_' || c == '$') = false ∧ c.isDigit = false ∧ c ≠ '"' := by
    decide
  obtain ⟨c, hc, hascii, hword, hdigit, hquote⟩ := hall m hm
  rw [← opens_ascii hascii] at hword
  obtain ⟨cs, hcs⟩ := List.head?_eq_some_iff.1 hc
  rw [hcs, List.cons_append] at hread ⊢
  rw [scan, if_neg (by rw [hword]; decide), if_neg (by rw [hdigit]; decide), if_neg hquote, hread]

end Scan

lemma isWhitespace_iff : c.isWhitespace ↔ c ∈ [' ', '\t', '\r', '\n'] := by
  simp [Char.isWhitespace, or_assoc]

lemma isWhitespace_of_opens [Lexis] (hc : opens c) : c.isWhitespace = false := by
  have hall : ∀ c ∈ [' ', '\t', '\r', '\n'], c.toNat < 128 ∧
      (c.isAlpha || c == '_' || c == '$') = false := by
    decide
  rw [Bool.eq_false_iff]
  intro hblank
  obtain ⟨hascii, hnone⟩ := hall c (isWhitespace_iff.1 hblank)
  rw [opens_ascii hascii, hnone] at hc
  cases hc

lemma isWhitespace_of_isDigit (hc : c.isDigit) : c.isWhitespace = false := by
  have hall : ∀ c ∈ [' ', '\t', '\r', '\n'], c.isDigit = false := by decide
  rw [Bool.eq_false_iff]
  intro hblank
  rw [hall c (isWhitespace_iff.1 hblank)] at hc
  cases hc

/-- The first character of a token is not blank. -/
lemma Valid.exists_chars_eq [Lexis] {t : Token} (ht : t.Valid) :
    ∃ c cs, t.chars = c :: cs ∧ c.isWhitespace = false := by
  cases t with
  | word name =>
    obtain ⟨c, cs, hchars, hc, -⟩ := Lexis.isName_iff.1 ht
    exact ⟨c, cs, hchars, isWhitespace_of_opens hc⟩
  | numeral text =>
    obtain ⟨whole, hne, hwhole, hcases⟩ := ht
    obtain ⟨c, whole, rfl⟩ := List.exists_cons_of_ne_nil hne
    have hc := isWhitespace_of_isDigit (hwhole c List.mem_cons_self)
    rcases hcases with heq | ⟨fraction, -, heq⟩
    · exact ⟨c, _, heq, hc⟩
    · exact ⟨c, _, heq, hc⟩
  | literal value =>
    refine ⟨'"', (String.join (value.toList.map Text.literalChar) ++ "\"").toList, ?_, by decide⟩
    show (Text.literal value).toList = _
    simp [Text.literal]
  | mark m =>
    have hall : ∀ m ∈ marks, ∃ c ∈ m.toList.head?, c.isWhitespace = false := by decide
    obtain ⟨c, hc, hblank⟩ := hall m ht
    obtain ⟨cs, hcs⟩ := List.head?_eq_some_iff.1 hc
    exact ⟨c, cs, hcs, hblank⟩

/-- A token is read where it is written, if it ends there. -/
lemma lex_token [Lexis] {t : Token} (ht : t.Valid) {rest : List Char}
    (hrest : ∀ c ∈ rest.head?, t.stopsBefore c) :
    lex (t.chars ++ rest) = (lex rest).map (t :: ·) := by
  have hscan : scan (t.chars ++ rest) = some (t, rest) := by
    cases t with
    | word name => exact scan_word ht hrest
    | numeral text => exact scan_numeral ht hrest
    | literal value => exact scan_literal value
    | mark text => exact scan_mark ht hrest
  obtain ⟨c, cs, hchars, hblank⟩ := ht.exists_chars_eq
  have hlength : rest.length < (c :: (cs ++ rest)).length := by
    simp only [List.length_cons, List.length_append]
    omega
  rw [hchars, List.cons_append] at hscan ⊢
  rw [lex, if_neg (by rw [hblank]; decide), hscan]
  dsimp only
  rw [if_pos hlength]

/-- Blanks and line separators are no tokens. -/
lemma lex_space [Lexis] {space : List Char} (hspace : ∀ c ∈ space, c.isWhitespace)
    (rest : List Char) : lex (space ++ rest) = lex rest := by
  induction space with
  | nil => rfl
  | cons c space ih =>
    obtain ⟨hc, hspace⟩ := List.forall_mem_cons.1 hspace
    rw [List.cons_append, lex, if_pos hc, ih hspace]

/-! ## Where tokens end -/

/-- Characters in front of which every token ends. -/
def closing : List Char :=
  [' ', '\t', '\r', '\n', '(', ')', '[', ']', '\x7d', ',', ':', ';']

lemma mem_closing_of_isWhitespace (hc : c.isWhitespace) : c ∈ closing := by
  have hall : ∀ c ∈ [' ', '\t', '\r', '\n'], c ∈ closing := by decide
  exact hall c (isWhitespace_iff.1 hc)

/-- Every token stops before a closing character. -/
lemma Valid.stopsBefore_closing [Lexis] {t : Token} (ht : t.Valid) (hc : c ∈ closing) :
    t.stopsBefore c := by
  have hall : ∀ c ∈ closing, c.toNat < 128 ∧ (c.isAlphanum || c == '_' || c == '$') = false ∧
      c.isDigit = false ∧ c ≠ '.' ∧ c ≠ '/' ∧ c ≠ '*' := by
    decide
  obtain ⟨hascii, hword, hdigit, hdot, hslash, hstar⟩ := hall c hc
  rw [← continues_ascii hascii] at hword
  cases t with
  | word name => simp [stopsBefore, hword]
  | numeral text => simp [stopsBefore, hword, hdigit, hdot]
  | literal value => rfl
  | mark m =>
    have htails : ∀ longer ∈ marks, ∀ c ∈ closing, c ∉ longer.toList.tail := by decide
    obtain ⟨d, ds, hds, -⟩ := ht.exists_chars_eq
    change m.toList = d :: ds at hds
    have hlonger : ∀ longer ∈ marks, (m.toList ++ [c]).isPrefixOf longer.toList = false := by
      intro longer hmem
      rw [Bool.eq_false_iff]
      intro hfront
      obtain ⟨more, hmore⟩ := List.isPrefixOf_iff_prefix.1 hfront
      refine htails longer hmem c hc ?_
      rw [← hmore, hds]
      simp
    have hcomment : opensComment (m.toList ++ [c]) = false := by
      cases ds with
      | nil => simp [hds, opensComment, List.isPrefixOf, hslash, hstar, Ne.symm]
      | cons e ds =>
        have hown : ∀ m ∈ marks, opensComment m.toList = false := by decide
        rw [opensComment_append (by simp [hds]), hown m ht]
    simp only [stopsBefore, markStopsBefore, hcomment, Bool.not_false, Bool.and_true,
      List.all_eq_true, Bool.not_eq_true']
    exact hlonger

/-- Whether `u` may stand right behind `t`. -/
def apart [Lexis] (t u : Token) : Bool :=
  u.chars.head?.all t.stopsBefore

end Token

/-! ## Texts and their tokens -/

open Token

/-- The text is read as the tokens, whatever is behind it, unless this runs into the last one. -/
structure Spells [Lexis] (text : List Char) (tokens : List Token) : Prop where
  valid : ∀ t ∈ tokens, t.Valid
  /-- The text opens with the first character of the first token. -/
  head : ∃ t, tokens.head? = some t ∧ text.head? = t.chars.head? ∧ text ≠ []
  lexed : ∀ rest, (∀ t ∈ tokens.getLast?, ∀ c ∈ rest.head?, t.stopsBefore c) →
    lex (text ++ rest) = (lex rest).map (tokens ++ ·)

namespace Spells

variable [Lexis] {text text' : List Char} {tokens tokens' : List Token}

lemma token {t : Token} (ht : t.Valid) : Spells t.chars [t] where
  valid := fun u hu => by rwa [List.mem_singleton.1 hu]
  head := by
    obtain ⟨c, cs, hchars, -⟩ := ht.exists_chars_eq
    exact ⟨t, rfl, rfl, by rw [hchars]; exact List.cons_ne_nil _ _⟩
  lexed := fun rest hrest => lex_token ht (hrest t rfl)

lemma of_mark {m : String} (hm : m ∈ marks) : Spells m.toList [mark m] :=
  token (t := mark m) hm

lemma tokens_ne_nil (h : Spells text tokens) : tokens ≠ [] := by
  obtain ⟨t, ht, -⟩ := h.head
  rintro rfl
  cases ht

/-- What ends in front of the second text ends in front of it whatever follows. -/
lemma head?_append (h : Spells text tokens) (rest : List Char) :
    ∃ t, tokens.head? = some t ∧ (text ++ rest).head? = t.chars.head? := by
  obtain ⟨t, ht, hhead, hne⟩ := h.head
  refine ⟨t, ht, ?_⟩
  rw [List.head?_append_of_ne_nil _ hne, hhead]

lemma getLast?_append (h' : Spells text' tokens') :
    (tokens ++ tokens').getLast? = tokens'.getLast? :=
  List.getLast?_append_of_ne_nil _ h'.tokens_ne_nil

/-- Texts side by side. -/
lemma append (h : Spells text tokens) (h' : Spells text' tokens')
    (hapart : ∀ t ∈ tokens.getLast?, ∀ u ∈ tokens'.head?, t.apart u) :
    Spells (text ++ text') (tokens ++ tokens') where
  valid := by
    intro t ht
    rcases List.mem_append.1 ht with ht | ht
    · exact h.valid t ht
    · exact h'.valid t ht
  head := by
    obtain ⟨t, ht, hhead⟩ := h.head?_append text'
    obtain ⟨-, -, -, hne⟩ := h.head
    refine ⟨t, ?_, hhead, List.append_ne_nil_of_left_ne_nil hne _⟩
    rw [List.head?_append_of_ne_nil _ h.tokens_ne_nil, ht]
  lexed := by
    intro rest hrest
    rw [h'.getLast?_append] at hrest
    have hmeet : ∀ t ∈ tokens.getLast?, ∀ c ∈ (text' ++ rest).head?, t.stopsBefore c := by
      intro t ht c hc
      obtain ⟨u, hu, hhead⟩ := h'.head?_append rest
      have hstop := hapart t ht u hu
      rw [hhead] at hc
      rw [apart, hc] at hstop
      exact hstop
    rw [List.append_assoc, h.lexed _ hmeet, h'.lexed _ hrest, Option.map_map]
    simp only [Function.comp_def, List.append_assoc]

/-- White space may stand behind a text. -/
lemma stopsBefore_space (h : Spells text tokens) {space rest : List Char}
    (hspace : ∀ c ∈ space, c.isWhitespace)
    (hrest : space = [] → ∀ t ∈ tokens.getLast?, ∀ c ∈ rest.head?, t.stopsBefore c) :
    ∀ t ∈ tokens.getLast?, ∀ c ∈ (space ++ rest).head?, t.stopsBefore c := by
  cases space with
  | nil => exact hrest rfl
  | cons d space =>
    intro t ht c hc
    cases hc
    have hclosing := mem_closing_of_isWhitespace (hspace d List.mem_cons_self)
    exact (h.valid t (List.mem_of_getLast? ht)).stopsBefore_closing hclosing

/-- Texts with white space between them. -/
lemma spaced (h : Spells text tokens) (space : List Char) (h' : Spells text' tokens')
    (hne : space ≠ []) (hspace : ∀ c ∈ space, c.isWhitespace) :
    Spells (text ++ (space ++ text')) (tokens ++ tokens') where
  valid := by
    intro t ht
    rcases List.mem_append.1 ht with ht | ht
    · exact h.valid t ht
    · exact h'.valid t ht
  head := by
    obtain ⟨t, ht, hhead⟩ := h.head?_append (space ++ text')
    obtain ⟨-, -, -, htext⟩ := h.head
    refine ⟨t, ?_, hhead, List.append_ne_nil_of_left_ne_nil htext _⟩
    rw [List.head?_append_of_ne_nil _ h.tokens_ne_nil, ht]
  lexed := by
    intro rest hrest
    rw [h'.getLast?_append] at hrest
    have hmeet : ∀ t ∈ tokens.getLast?, ∀ c ∈ (space ++ (text' ++ rest)).head?, t.stopsBefore c :=
      h.stopsBefore_space hspace fun hnil => absurd hnil hne
    rw [List.append_assoc, List.append_assoc, h.lexed _ hmeet, lex_space hspace,
      h'.lexed _ hrest, Option.map_map]
    simp only [Function.comp_def, List.append_assoc]

/-- Texts with a blank between them. -/
lemma blank (h : Spells text tokens) (h' : Spells text' tokens') :
    Spells (text ++ ' ' :: text') (tokens ++ tokens') :=
  h.spaced [' '] h' (List.cons_ne_nil _ _) (by decide)

/-- A text with white space behind it. -/
lemma trailing (h : Spells text tokens) {space : List Char}
    (hspace : ∀ c ∈ space, c.isWhitespace) : Spells (text ++ space) tokens where
  valid := h.valid
  head := by
    obtain ⟨t, ht, hhead⟩ := h.head?_append space
    obtain ⟨-, -, -, htext⟩ := h.head
    exact ⟨t, ht, hhead, List.append_ne_nil_of_left_ne_nil htext _⟩
  lexed := by
    intro rest hrest
    rw [List.append_assoc, h.lexed _ (h.stopsBefore_space hspace fun _ => hrest),
      lex_space hspace]

/-- A text that opens with a character in front of which every token ends. -/
lemma append_closing (h : Spells text tokens) (h' : Spells text' tokens')
    (hclosing : ∀ u ∈ tokens'.head?, ∀ c ∈ u.chars.head?, c ∈ closing) :
    Spells (text ++ text') (tokens ++ tokens') := by
  refine h.append h' fun t ht u hu => ?_
  rw [apart, Option.all_eq_true]
  exact fun c hc => (h.valid t (List.mem_of_getLast? ht)).stopsBefore_closing (hclosing u hu c hc)

/-- Items with a comma and a blank between each two. -/
lemma separated {texts : List (List Char)} {parts : List (List Token)}
    (h : List.Forall₂ Spells texts parts) (hne : parts ≠ []) :
    Spells ([',', ' '].intercalate texts) ([mark ","].intercalate parts) := by
  induction h with
  | nil => exact absurd rfl hne
  | @cons text tokens texts parts hhead htail ih =>
    cases htail with
    | nil => simpa using hhead
    | cons hnext htail =>
      have hrest := ih (List.cons_ne_nil _ _)
      have hcomma : Spells (mark ",").chars [mark ","] := of_mark (by decide)
      have hboth := (hhead.append_closing hcomma (by decide)).blank hrest
      rw [List.intercalate_cons_cons, List.intercalate_cons_cons]
      simpa [chars] using hboth

/-- The whole text is read as its tokens. -/
lemma lex_eq (h : Spells text tokens) : lex text = some tokens := by
  have hlex := h.lexed [] (by simp)
  rwa [List.append_nil, lex, Option.map_some, List.append_nil] at hlex

end Spells

end ScriptCompiler.Script
