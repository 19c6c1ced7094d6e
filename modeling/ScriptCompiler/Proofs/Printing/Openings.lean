import ScriptCompiler.Proofs.Printing.Spelling
import ScriptCompiler.Proofs.Semantics.Writes

/-!
# How expression statements open

The text of an expression opens with the text of its front operand, if it has one.  So the first
token of a statement is found by going from front operand to front operand, up to parentheses or to
an expression that opens with a token of its own.  An expression where the way ends at a function or
an object literal is enclosed as a whole.

Unlike for reading a script back, nothing is asked of functions, numbers and targets here.
-/

namespace ScriptCompiler.Script

open Token
open Lexis (isName opens_ascii continues_ascii)

/-! ## Texts that open a value -/

/-- With `rest` behind it, the text begins with a token that opens neither a block nor a function
declaration. -/
def OpensValue [Lexis] (text rest : List Char) : Prop :=
  ∃ t behind, scan (text ++ rest) = some (t, behind) ∧ t ≠ mark "\x7b" ∧ t ≠ word "function"

section OpensValue

variable [Lexis] {rest : List Char}

/-- Marks that begin with these characters open a value, whatever follows. -/
lemma opensValue_sign {c : Char} (hc : c ∈ ['(', '[', '-', '+', '!', '~']) (cs : List Char) :
    OpensValue (c :: cs) rest := by
  have hall : ∀ c ∈ ['(', '[', '-', '+', '!', '~'], c.toNat < 128 ∧
      (c.isAlpha || c == '_' || c == '$') = false ∧ c.isDigit = false ∧ c ≠ '"' ∧ c ≠ '/' ∧
      c ≠ '\x7b' ∧ String.ofList [c] ∈ marks := by
    decide
  obtain ⟨hascii, hword, hdigit, hquote, hslash, hbrace, hmark⟩ := hall c hc
  rw [← opens_ascii hascii] at hword
  have hcomment : opensComment (c :: (cs ++ rest)) = false := by
    simp [opensComment, List.isPrefixOf, hslash.symm]
  have hsome : (marks.find? fun m => m.toList.isPrefixOf (c :: (cs ++ rest))).isSome := by
    refine List.find?_isSome.mpr ⟨_, hmark, ?_⟩
    simp [List.isPrefixOf]
  obtain ⟨m, hm⟩ := Option.isSome_iff_exists.mp hsome
  refine ⟨mark m, (c :: (cs ++ rest)).drop m.toList.length, ?_, ?_, by simp⟩
  · rw [List.cons_append, scan, if_neg (by rw [hword]; decide), if_neg (by rw [hdigit]; decide),
      if_neg hquote, scanMark, hcomment, hm]
    rfl
  · intro heq
    obtain rfl := Token.mark.inj heq
    have hfront := List.find?_some hm
    simp [List.isPrefixOf, hbrace.symm] at hfront

/-- A word opens a value if it is complete and no keyword of a declaration. -/
lemma opensValue_word {name : String} (hname : isName name = true)
    (hne : name ≠ "function") (hrest : ∀ c ∈ rest.head?, (word name).stopsBefore c) :
    OpensValue name.toList rest :=
  ⟨word name, rest, scan_word hname hrest, by simp, by simpa using hne⟩

end OpensValue

/-! ## Front operands -/

namespace Expr

/-- The operand that the text of the expression opens with, and whether it stands in parentheses. -/
def front? : Expr → Option (Bool × Expr)
  | .member target _ | .index target _ | .call target _ => some (target.needsParensAsTarget, target)
  | .binary op left _ => some (left.needsParensBeside op op.precedence, left)
  | .update _ operand => some (operand.bindsLooser 17, operand)
  | .assign _ target _ => some (target.bindsLooser 16, target)
  | .conditional condition _ _ => some (condition.bindsLooser 4, condition)
  | .comma (first :: _) => some (first.bindsLooser 2, first)
  | _ => none

/-- Whether `c` may stand right behind the text of the expression; a dot stands behind objects of a
member access only. -/
def precedes (e : Expr) (c : Char) : Prop :=
  c ∈ '+' :: '-' :: closing ∨ c = '.' ∧ e.needsParensAsTarget = false

variable {e front : Expr} {enclosed : Bool}

lemma mem_parts_of_front? (h : e.front? = some (enclosed, front)) : front ∈ e.parts := by
  unfold front? at h
  split at h <;> cases h <;> exact List.mem_cons_self

/-- A front operand without parentheses opens like the whole expression. -/
lemma opensLikeStatement_front (h : e.front? = some (false, front))
    (hopens : e.opensLikeStatement = false) : front.opensLikeStatement = false := by
  have htarget : ∀ {target : Expr}, target.needsParensAsTarget = false →
      (!target.isFunction && target.opensLikeStatement) = false →
      target.opensLikeStatement = false := by
    intro target hparens hopens
    cases target <;> first | exact hopens | cases hparens
  cases e with
  | member target | index target | call target =>
    obtain ⟨hparens, rfl⟩ := Prod.mk.inj (Option.some.inj h)
    exact htarget hparens hopens
  | binary | update | assign | conditional =>
    obtain ⟨-, rfl⟩ := Prod.mk.inj (Option.some.inj h)
    exact hopens
  | comma items =>
    cases items with
    | nil => cases h
    | cons first others =>
      obtain ⟨-, rfl⟩ := Prod.mk.inj (Option.some.inj h)
      exact hopens
  | _ => cases h

/-- The text of an expression opens with that of its front operand. -/
lemma core_front (h : e.front? = some (enclosed, front)) (layout : Layout) (depth : ℕ)
    {rest : List Char} (hrest : ∀ c ∈ rest.head?, e.precedes c) :
    ∃ behind, (e.core layout depth).toList ++ rest =
        (enclose enclosed (front.core layout depth)).toList ++ behind ∧
      (enclosed = false → ∀ c ∈ behind.head?, front.precedes c) := by
  -- behind most front operands stands a blank, a bracket or a sign
  have hbehind : ∀ {c : Char} {behind : List Char}, c ∈ '+' :: '-' :: closing →
      enclosed = false → ∀ d ∈ (c :: behind).head?, front.precedes d := by
    intro c behind hc _ d hd
    obtain rfl := Option.some.inj hd
    exact .inl hc
  cases e with
  | member target name =>
    obtain ⟨rfl, rfl⟩ := Prod.mk.inj (Option.some.inj h)
    refine ⟨'.' :: (name.toList ++ rest), by simp [core], ?_⟩
    intro hparens d hd
    obtain rfl := Option.some.inj hd
    exact .inr ⟨rfl, hparens⟩
  | index target key =>
    obtain ⟨rfl, rfl⟩ := Prod.mk.inj (Option.some.inj h)
    exact ⟨'[' :: _, by simp [core]; rfl, hbehind (by decide)⟩
  | call target arguments =>
    obtain ⟨rfl, rfl⟩ := Prod.mk.inj (Option.some.inj h)
    exact ⟨'(' :: _, by simp [core]; rfl, hbehind (by decide)⟩
  | binary | assign | conditional =>
    obtain ⟨rfl, rfl⟩ := Prod.mk.inj (Option.some.inj h)
    exact ⟨' ' :: _, by simp [core]; rfl, hbehind (by decide)⟩
  | update op operand =>
    obtain ⟨rfl, rfl⟩ := Prod.mk.inj (Option.some.inj h)
    cases op with
    | increment => exact ⟨'+' :: '+' :: rest, by simp [core, UpdateOp.token], hbehind (by decide)⟩
    | decrement => exact ⟨'-' :: '-' :: rest, by simp [core, UpdateOp.token], hbehind (by decide)⟩
  | comma items =>
    cases items with
    | nil => cases h
    | cons first others =>
      obtain ⟨rfl, rfl⟩ := Prod.mk.inj (Option.some.inj h)
      cases others with
      | nil =>
        -- what follows the list follows its only item, and this is no dot
        refine ⟨rest, by simp [core, itemTexts], fun _ c hc => ?_⟩
        rcases hrest c hc with hc | ⟨-, hparens⟩
        · exact .inl hc
        · cases hparens
      | cons second others =>
        exact ⟨',' :: _, by simp [core, itemTexts]; rfl, hbehind (by decide)⟩
  | _ => cases h

/-! ## Expressions -/

variable [Lexis]

/-- A word ends where the text of an expression may end. -/
lemma stopsBefore_of_precedes {c : Char} (hc : e.precedes c) (name : String) :
    (word name).stopsBefore c := by
  have hall : ∀ c ∈ '.' :: '+' :: '-' :: closing, c.toNat < 128 ∧
      (c.isAlphanum || c == '_' || c == '$') = false := by
    decide
  have hmem : c ∈ '.' :: '+' :: '-' :: closing := by
    rcases hc with hc | ⟨rfl, -⟩
    · exact List.mem_cons_of_mem _ hc
    · exact List.mem_cons_self
  obtain ⟨hascii, hword⟩ := hall c hmem
  rw [stopsBefore, continues_ascii hascii, hword]
  rfl

/-- Words that the printer writes itself. -/
def ownWords : List String :=
  ["null", "true", "false", "this", "new", "typeof", "NaN", "Infinity"]

lemma opensValue_ownWord {name : String} (hname : name ∈ ownWords) {rest : List Char}
    (hrest : ∀ c ∈ rest.head?, (word name).stopsBefore c) : OpensValue name.toList rest := by
  have hall : ∀ name ∈ ownWords, Lexis.isAsciiName name = true ∧ name ≠ "function" := by
    decide
  obtain ⟨hascii, hne⟩ := hall name hname
  exact opensValue_word (Lexis.isName_of_ascii hascii) hne hrest

/-- The text of a number is a word, a numeral, or opens with a sign. -/
lemma opensValue_number (d : Double) {rest : List Char}
    (hrest : ∀ c ∈ rest.head?, (Expr.number d).precedes c) : OpensValue d.text.toList rest := by
  have hword : ∀ name ∈ ownWords, OpensValue name.toList rest := fun name hname =>
    opensValue_ownWord hname fun c hc => stopsBefore_of_precedes (hrest c hc) name
  cases hnan : d.isNaN with
  | true =>
    rw [Double.text, if_pos hnan]
    exact hword "NaN" (by decide)
  | false =>
    cases hsign : d.isSignNegative with
    | true =>
      obtain ⟨more, hmore⟩ : ∃ more, d.text = "-" ++ more := by
        rw [Double.text, hnan, hsign]
        cases d.isInfinite
        · cases d.isZero <;> exact ⟨_, rfl⟩
        · exact ⟨_, rfl⟩
      rw [hmore, String.toList_append]
      exact opensValue_sign (by decide) _
    | false =>
      cases hinfinite : d.isInfinite with
      | true =>
        have htext : d.text = "Infinity" := by
          rw [Double.text, hnan, hsign, hinfinite]
          rfl
        rw [htext]
        exact hword "Infinity" (by decide)
      | false =>
        have hnumeral : IsNumeral d.text.toList := by
          have hfinite : d.isFinite = true := by rw [Double.isFinite, hnan, hinfinite]; rfl
          have htext := Double.isNumeral_text_abs hfinite
          rwa [Double.abs_of_not_isSignNegative hsign] at htext
        refine ⟨numeral d.text, rest, scan_numeral hnumeral fun c hc => ?_, by simp, by simp⟩
        have hall : ∀ c ∈ '+' :: '-' :: closing, c.toNat < 128 ∧
            (c.isAlphanum || c == '_' || c == '$') = false ∧ c.isDigit = false ∧ c ≠ '.' := by
          decide
        rcases hrest c hc with hc | ⟨-, hparens⟩
        · obtain ⟨hascii, hword, hdigit, hdot⟩ := hall c hc
          rw [stopsBefore, continues_ascii hascii, hword, hdigit]
          simpa using hdot
        · cases hparens

/-- An expression without front operand opens with a token of its own. -/
lemma opensValue_of_front?_none (h : e.front? = none)
    (hname : ∀ x, e = .ident x → isName x = true ∧ x ∉ Grammar.reserved)
    (hcomma : e ≠ .comma []) (hopens : e.opensLikeStatement = false) (layout : Layout) (depth : ℕ)
    {rest : List Char} (hrest : ∀ c ∈ rest.head?, e.precedes c) :
    OpensValue (e.core layout depth).toList rest := by
  have hword : ∀ name ∈ ownWords, OpensValue name.toList rest := fun name hname =>
    opensValue_ownWord hname fun c hc => stopsBefore_of_precedes (hrest c hc) name
  -- a keyword with a blank behind it
  have hkeyword : ∀ name ∈ ownWords, ∀ more, OpensValue (name.toList ++ ' ' :: more) rest := by
    intro name hname more
    rw [OpensValue, List.append_assoc]
    refine opensValue_ownWord hname fun c hc => ?_
    obtain rfl := Option.some.inj hc
    exact stopsBefore_of_precedes (e := .null) (.inl (by decide)) name
  cases e with
  | null => exact hword "null" (by decide)
  | boolean value =>
    cases value with
    | true => exact hword "true" (by decide)
    | false => exact hword "false" (by decide)
  | number d => exact opensValue_number d hrest
  | string value => exact ⟨literal value, rest, scan_literal value, by simp, by simp⟩
  | ident x =>
    obtain ⟨hx, hreserved⟩ := hname x rfl
    refine opensValue_word hx ?_ fun c hc => stopsBefore_of_precedes (hrest c hc) x
    rintro rfl
    exact hreserved (by decide)
  | this => exact hword "this" (by decide)
  | new constructor arguments =>
    rw [core]
    simpa using hkeyword "new" (by decide) _
  | object | function => cases hopens
  | array items =>
    rw [core, String.append_assoc, String.toList_append]
    exact opensValue_sign (by decide) _
  | unary op operand =>
    rw [core, String.append_assoc, String.toList_append]
    cases op with
    | typeOf => exact hkeyword "typeof" (by decide) _
    | _ => exact opensValue_sign (by decide) _
  | comma items =>
    cases items with
    | nil => exact absurd rfl hcomma
    | cons => cases h
  | _ => cases h

/-- Expressions whose names are identifiers open a value, unless they open like a statement. -/
lemma opensValue_core (e : Expr)
    (hnames : ∀ x, e.Contains (.ident x) → isName x = true ∧ x ∉ Grammar.reserved)
    (hcommas : ¬ e.Contains (.comma [])) (hopens : e.opensLikeStatement = false) (layout : Layout)
    (depth : ℕ) {rest : List Char} (hrest : ∀ c ∈ rest.head?, e.precedes c) :
    OpensValue (e.core layout depth).toList rest := by
  cases hfront : e.front? with
  | none =>
    refine opensValue_of_front?_none hfront ?_ ?_ hopens layout depth hrest
    · rintro x rfl
      exact hnames x .refl
    · rintro rfl
      exact hcommas .refl
  | some found =>
    obtain ⟨enclosed, front⟩ := found
    obtain ⟨behind, htext, hbehind⟩ := core_front hfront layout depth hrest
    have hpart := mem_parts_of_front? hfront
    have hlt := sizeOf_lt_of_mem_parts hpart
    rw [OpensValue, htext]
    cases enclosed with
    | true =>
      rw [enclose, if_pos rfl, String.append_assoc, String.toList_append]
      exact opensValue_sign (by decide) _
    | false =>
      exact opensValue_core front (fun x hx => hnames x (.head hpart hx))
        (fun hnil => hcommas (.head hpart hnil)) (opensLikeStatement_front hfront hopens) layout
        depth (hbehind rfl)
termination_by sizeOf e

end Expr

/-! ## Statements -/

/-- The text of an expression statement, at any depth and with any text behind it, begins with a
token that opens neither a block nor a function declaration.  Names of members and all that stands
in function bodies may be any text. -/
theorem exprStmt_opens_value [Lexis] (e : Expr)
    (hnames : ∀ x, e.Contains (.ident x) → isName x = true ∧ x ∉ Grammar.reserved)
    (hcommas : ¬ e.Contains (.comma [])) (layout : Layout) (depth : ℕ) (rest : String) :
    ∃ t behind, scan ((Stmt.expr e).inline layout depth ++ rest).toList = some (t, behind) ∧
      t ≠ mark "\x7b" ∧ t ≠ word "function" := by
  rw [Stmt.inline, String.append_assoc, String.toList_append]
  cases hopens : e.opensLikeStatement with
  | true =>
    rw [enclose, if_pos rfl, String.append_assoc, String.toList_append]
    exact opensValue_sign (by decide) _
  | false =>
    refine e.opensValue_core hnames hcommas hopens layout depth fun c hc => .inl ?_
    rw [String.toList_append] at hc
    obtain rfl := Option.some.inj hc
    decide

/-- An assignment to a member of an object literal. -/
def sampleLiteral : Expr :=
  .assign none (.member (.object []) "a") (.ident "b")

/-- Names by the classes of letters and numerals. -/
@[reducible] def letterLexis : Lexis :=
  .printed fun _ => none

attribute [local instance] letterLexis in
theorem sampleLiteral_opens_value :
    ({} : Layout).stmtText (.expr sampleLiteral) = "(\x7b\x7d.a = b);\n" ∧
      ∃ t behind, scan (({} : Layout).stmtText (.expr sampleLiteral)).toList = some (t, behind) ∧
        t ≠ mark "\x7b" ∧ t ≠ word "function" := by
  have hinside : ∀ f, sampleLiteral.Contains f →
      f = sampleLiteral ∨ f = .member (.object []) "a" ∨ f = .object [] ∨ f = .ident "b" := by
    intro f h
    induction h with
    | refl => exact .inl rfl
    | tail _ hpart ih =>
      rcases ih with rfl | rfl | rfl | rfl <;> simp [sampleLiteral, Expr.parts] at hpart <;> tauto
  refine ⟨by decide +kernel, exprStmt_opens_value sampleLiteral (fun x hx => ?_) ?_ {} 0 "\n"⟩
  · rcases hinside _ hx with h | h | h | h <;> cases h
    decide +kernel
  · intro h
    rcases hinside _ h with h | h | h | h <;> cases h

end ScriptCompiler.Script
