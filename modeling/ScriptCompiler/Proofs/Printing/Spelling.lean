import ScriptCompiler.Proofs.Printing.Grammar
import ScriptCompiler.Script.Printer

/-!
# The tokens of a printed expression

What the printer writes is read by the lexer as the tokens of the expression: no operator runs into
the next one, no number takes the dot of a member access, and no name grows into its neighbour.

A number with a sign is written as two tokens, so it is read as the negation of its absolute value.
-/

namespace ScriptCompiler

/-! ## Numbers -/

namespace Double

/-- The number without its sign. -/
def abs (d : Double) : Double :=
  ⟨UInt64.ofNat d.magnitude⟩

/-- Whether the number is neither infinite nor a NaN. -/
def isFinite (d : Double) : Bool :=
  !d.isNaN && !d.isInfinite

lemma magnitude_lt (d : Double) : d.magnitude < Nat.pow 2 63 :=
  Nat.mod_lt _ (by decide)

/-- The absolute value has the magnitude as bits. -/
lemma bits_abs (d : Double) : d.abs.bits.toNat = d.magnitude := by
  have hlt := d.magnitude_lt
  exact UInt64.toNat_ofNat_of_lt' (Nat.lt_trans hlt (by decide))

@[simp] lemma magnitude_abs (d : Double) : d.abs.magnitude = d.magnitude := by
  rw [magnitude, bits_abs, Nat.mod_eq_of_lt d.magnitude_lt]

@[simp] lemma isSignNegative_abs (d : Double) : d.abs.isSignNegative = false := by
  rw [isSignNegative, bits_abs, decide_eq_false (Nat.not_le.2 d.magnitude_lt)]

/-- A number without sign is its absolute value. -/
lemma abs_of_not_isSignNegative {d : Double} (hd : d.isSignNegative = false) : d.abs = d := by
  have hlt : d.bits.toNat < Nat.pow 2 63 := Nat.not_le.1 (of_decide_eq_false hd)
  have hbits : d.abs.bits = d.bits := by
    apply UInt64.toNat_inj.1
    rw [bits_abs, magnitude, Nat.mod_eq_of_lt hlt]
  show mk d.abs.bits = mk d.bits
  rw [hbits]

lemma exponentField_abs (d : Double) : d.abs.exponentField = d.exponentField := by
  rw [exponentField, magnitude_abs, exponentField]

lemma fractionField_abs (d : Double) : d.abs.fractionField = d.fractionField := by
  rw [fractionField, magnitude_abs, fractionField]

lemma isNaN_abs (d : Double) : d.abs.isNaN = d.isNaN := by
  rw [isNaN, exponentField_abs, fractionField_abs, isNaN]

lemma isInfinite_abs (d : Double) : d.abs.isInfinite = d.isInfinite := by
  rw [isInfinite, exponentField_abs, fractionField_abs, isInfinite]

/-- The sign does not count for the digits. -/
lemma shortest_abs (d : Double) : d.abs.shortest = d.shortest := by
  have hreadBack : d.abs.readBack = d.readBack := by
    unfold readBack significand scale isBinadeStart
    rw [exponentField_abs, fractionField_abs]
  rw [shortest, hreadBack, shortest]

/-- The text of a finite number is its sign in front of the text of its absolute value. -/
lemma text_eq_sign_append {d : Double} (hd : d.isFinite = true) :
    d.text = (if d.isSignNegative then "-" else "") ++ d.abs.text := by
  obtain ⟨hnan, hinfinite⟩ := Bool.and_eq_true_iff.1 hd
  rw [Bool.not_eq_true'] at hnan hinfinite
  have hzero : d.abs.isZero = d.isZero := by rw [isZero, magnitude_abs, isZero]
  simp only [text, isNaN_abs, isInfinite_abs, hnan, hinfinite, hzero, shortest_abs,
    isSignNegative_abs]
  cases d.isZero <;> simp

open Script.Token (IsNumeral)

/-- A decimal in positional form is a numeral. -/
lemma isNumeral_positional (n : ℕ) (k : Int) : IsNumeral (positional n k).toList := by
  have hdigits : ∀ c ∈ Nat.toDigits 10 n, c.isDigit :=
    fun c hc => Nat.isDigit_of_mem_toDigits (by decide) (by decide) hc
  have hzeros : ∀ m, ∀ c ∈ List.replicate m '0', c.isDigit := by
    intro m c hc
    rw [List.eq_of_mem_replicate hc]
    decide
  have hne : Nat.toDigits 10 n ≠ [] := Nat.toDigits_ne_nil
  unfold positional
  dsimp only
  split_ifs with hk hplaces
  · refine ⟨_, ?_, ?_, .inl String.toList_ofList⟩
    · exact List.append_ne_nil_of_left_ne_nil hne _
    · exact List.forall_mem_append.2 ⟨hdigits, hzeros _⟩
  · refine ⟨['0'], List.cons_ne_nil _ _, by decide, .inr
      ⟨List.replicate (k.natAbs - (Nat.toDigits 10 n).length) '0' ++ Nat.toDigits 10 n, ?_, ?_⟩⟩
    · exact List.forall_mem_append.2 ⟨hzeros _, hdigits⟩
    · simp
  · refine ⟨(Nat.toDigits 10 n).take ((Nat.toDigits 10 n).length - k.natAbs), ?_, ?_,
      .inr ⟨(Nat.toDigits 10 n).drop ((Nat.toDigits 10 n).length - k.natAbs), ?_, ?_⟩⟩
    · rw [Ne, List.take_eq_nil_iff]
      rintro (hlength | hnil)
      · omega
      · exact hne hnil
    · exact fun c hc => hdigits c (List.mem_of_mem_take hc)
    · exact fun c hc => hdigits c (List.mem_of_mem_drop hc)
    · simp

/-- The text of a finite number without sign is a numeral. -/
lemma isNumeral_text_abs {d : Double} (hd : d.isFinite = true) : IsNumeral d.abs.text.toList := by
  obtain ⟨hnan, hinfinite⟩ := Bool.and_eq_true_iff.1 hd
  rw [Bool.not_eq_true'] at hnan hinfinite
  have htext : d.abs.text = if d.abs.isZero then "0" else
      positional d.abs.shortest.1 d.abs.shortest.2 := by
    simp only [text, isNaN_abs, isInfinite_abs, hnan, hinfinite, isSignNegative_abs]
    cases d.abs.isZero <;> simp
  rw [htext]
  split_ifs
  · exact ⟨['0'], List.cons_ne_nil _ _, by decide, .inl rfl⟩
  · exact isNumeral_positional _ _

end Double

namespace Script

open Token
open Grammar (isTarget closers)
open Lexis (isName isName_of_ascii opens_ascii continues_ascii)

/-! ## What is printed -/

/-- Operators that compare; they have no assignment of their own. -/
def comparisons : List BinaryOp :=
  [.equal, .notEqual, .strictEqual, .strictNotEqual, .lessThan, .lessEqual, .greaterThan,
   .greaterEqual]

mutual

/-- The expression can be written so that it reads back: it holds no function, its identifiers and
members are names, its identifiers are no reserved words, its numbers are finite and no negative
zero, what it assigns to can be assigned to, it combines no assignment with a comparison, its lists
with commas have at least two items, and the keys written without quotes are names. -/
def Expr.WellFormed [Lexis] : Expr → Prop
  | .null | .boolean _ | .string _ | .this => True
  | .number d =>
    d.isFinite = true ∧ (d.isSignNegative && d.isZero) = false ∧ Lexis.value d.abs.text = some d.abs
  | .ident name => isName name = true ∧ name ∉ Grammar.reserved
  | .member target name => target.WellFormed ∧ isName name = true
  | .index target key => target.WellFormed ∧ key.WellFormed
  | .call target arguments => target.WellFormed ∧ AllWellFormed arguments
  | .new constructor arguments => constructor.WellFormed ∧ AllWellFormed arguments
  | .object properties => PropertiesWellFormed properties
  | .array items => AllWellFormed items
  | .binary _ left right => left.WellFormed ∧ right.WellFormed
  | .unary op operand =>
    operand.WellFormed ∧ (op.isUpdate = true → isTarget operand = true)
  | .update _ operand => operand.WellFormed ∧ isTarget operand = true
  | .assign op target value =>
    target.WellFormed ∧ isTarget target = true ∧ value.WellFormed ∧
      ∀ o ∈ op, o ∉ comparisons
  | .conditional condition whenTrue whenFalse =>
    condition.WellFormed ∧ whenTrue.WellFormed ∧ whenFalse.WellFormed
  | .function .. => False
  | .comma items => 2 ≤ items.length ∧ AllWellFormed items

/-- All expressions of a list are well-formed. -/
def AllWellFormed [Lexis] : List Expr → Prop
  | [] => True
  | e :: rest => e.WellFormed ∧ AllWellFormed rest

/-- The values of all properties are well-formed, and every key is a name unless it is quoted. -/
def PropertiesWellFormed [Lexis] : List Property → Prop
  | [] => True
  | .mk name value :: rest =>
    (Text.isIdentifier name = true → isName name = true) ∧ value.WellFormed ∧
      PropertiesWellFormed rest

end

mutual

instance Expr.decidableWellFormed [Lexis] : (e : Expr) → Decidable e.WellFormed
  | .null | .boolean _ | .string _ | .this => isTrue trivial
  | .number _ | .ident _ => inferInstanceAs (Decidable (_ ∧ _))
  | .member target _ => @instDecidableAnd _ _ target.decidableWellFormed _
  | .index target key =>
    @instDecidableAnd _ _ target.decidableWellFormed key.decidableWellFormed
  | .call target items | .new target items =>
    @instDecidableAnd _ _ target.decidableWellFormed (decidableAllWellFormed items)
  | .object properties => decidablePropertiesWellFormed properties
  | .array items => decidableAllWellFormed items
  | .binary _ left right =>
    @instDecidableAnd _ _ left.decidableWellFormed right.decidableWellFormed
  | .unary _ operand | .update _ operand =>
    @instDecidableAnd _ _ operand.decidableWellFormed _
  | .assign _ target value =>
    @instDecidableAnd _ _ target.decidableWellFormed
      (@instDecidableAnd _ _ _ (@instDecidableAnd _ _ value.decidableWellFormed _))
  | .conditional condition whenTrue whenFalse =>
    @instDecidableAnd _ _ condition.decidableWellFormed
      (@instDecidableAnd _ _ whenTrue.decidableWellFormed whenFalse.decidableWellFormed)
  | .function .. => isFalse id
  | .comma items => @instDecidableAnd _ _ _ (decidableAllWellFormed items)

instance decidableAllWellFormed [Lexis] : (items : List Expr) → Decidable (AllWellFormed items)
  | [] => isTrue trivial
  | e :: rest => @instDecidableAnd _ _ e.decidableWellFormed (decidableAllWellFormed rest)

instance decidablePropertiesWellFormed [Lexis] :
    (properties : List Property) → Decidable (PropertiesWellFormed properties)
  | [] => isTrue trivial
  | .mk _ value :: rest =>
    @instDecidableAnd _ _ _
      (@instDecidableAnd _ _ value.decidableWellFormed (decidablePropertiesWellFormed rest))

end

mutual

/-- The expression as it reads back: a number with a sign is the negation of its absolute value. -/
def Expr.read : Expr → Expr
  | .number d => if d.isSignNegative then .unary .negate (.number d.abs) else .number d
  | .member target name => .member target.read name
  | .index target key => .index target.read key.read
  | .call target arguments => .call target.read (readAll arguments)
  | .new constructor arguments => .new constructor.read (readAll arguments)
  | .object properties => .object (readProperties properties)
  | .array items => .array (readAll items)
  | .binary op left right => .binary op left.read right.read
  | .unary op operand => .unary op operand.read
  | .update op operand => .update op operand.read
  | .assign op target value => .assign op target.read value.read
  | .conditional condition whenTrue whenFalse =>
    .conditional condition.read whenTrue.read whenFalse.read
  | .comma items => .comma (readAll items)
  | .null => .null
  | .boolean value => .boolean value
  | .string value => .string value
  | .ident name => .ident name
  | .this => .this
  | .function name parameters body => .function name parameters body

/-- The expressions of a list as they read back. -/
def readAll : List Expr → List Expr
  | [] => []
  | e :: rest => e.read :: readAll rest

/-- Properties as they read back. -/
def readProperties : List Property → List Property
  | [] => []
  | .mk name value :: rest => .mk name value.read :: readProperties rest

end

/-! ## Tokens -/

/-- The tokens in parentheses if `needed`. -/
def parens (needed : Bool) (tokens : List Token) : List Token :=
  if needed then mark "(" :: tokens ++ [mark ")"] else tokens

/-- The token of an operator in front of its operand. -/
def UnaryOp.lead : UnaryOp → Token
  | .typeOf => word "typeof"
  | op => mark op.token

/-- The token of the name of a property. -/
def keyToken (name : String) : Token :=
  if Text.isIdentifier name then word name else literal name

mutual

/-- The tokens of an expression without enclosing parentheses. -/
def Expr.tokens : Expr → List Token
  | .null => [word "null"]
  | .boolean value => [word (if value then "true" else "false")]
  | .number d =>
    if d.isSignNegative then [mark "-", numeral d.abs.text] else [numeral d.abs.text]
  | .string value => [literal value]
  | .ident name => [word name]
  | .this => [word "this"]
  | .member target name =>
    parens target.needsParensAsTarget target.tokens ++ [mark ".", word name]
  | .index target key =>
    parens target.needsParensAsTarget target.tokens ++ mark "[" :: key.tokens ++ [mark "]"]
  | .call target arguments =>
    parens target.needsParensAsTarget target.tokens
      ++ mark "(" :: [mark ","].intercalate (itemTokens arguments) ++ [mark ")"]
  | .new constructor arguments =>
    word "new" :: parens (constructor.holdsCall || constructor.bindsLooser 18) constructor.tokens
      ++ mark "(" :: [mark ","].intercalate (itemTokens arguments) ++ [mark ")"]
  | .object properties =>
    mark "\x7b" :: [mark ","].intercalate (propertyTokens properties) ++ [mark "\x7d"]
  | .array items => mark "[" :: [mark ","].intercalate (itemTokens items) ++ [mark "]"]
  | .binary op left right =>
    parens (left.needsParensBeside op op.precedence) left.tokens
      ++ mark op.token :: parens (right.needsParensBeside op (op.precedence + 1)) right.tokens
  | .unary op operand => op.lead :: parens (operand.bindsLooser 15) operand.tokens
  | .update op operand => parens (operand.bindsLooser 17) operand.tokens ++ [mark op.token]
  | .assign op target value =>
    parens (target.bindsLooser 16) target.tokens
      ++ mark (assignToken op) :: parens (value.bindsLooser 2) value.tokens
  | .conditional condition whenTrue whenFalse =>
    parens (condition.bindsLooser 4) condition.tokens
      ++ mark "?" :: parens (whenTrue.bindsLooser 2) whenTrue.tokens
      ++ mark ":" :: parens (whenFalse.bindsLooser 2) whenFalse.tokens
  | .function .. => []
  | .comma items => [mark ","].intercalate (itemTokens items)

/-- The tokens of each item of a list. -/
def itemTokens : List Expr → List (List Token)
  | [] => []
  | e :: rest => parens (e.bindsLooser 2) e.tokens :: itemTokens rest

/-- The tokens of each property of an object literal. -/
def propertyTokens : List Property → List (List Token)
  | [] => []
  | .mk name value :: rest =>
    (keyToken name :: mark ":" :: parens (value.bindsLooser 2) value.tokens)
      :: propertyTokens rest

end

/-! ## First and last tokens -/

/-- No sign or dot in front of the token runs into it. -/
def Plain (t : Token) : Prop :=
  ∀ c ∈ t.chars.head?, c ∉ ['+', '-', '=', '.']

instance (t : Token) : Decidable (Plain t) :=
  inferInstanceAs (Decidable (∀ c ∈ t.chars.head?, _))

/-- The tokens open with one that closes no bracket and, if `strict`, with a plain one. -/
def Leads (strict : Prop) (tokens : List Token) : Prop :=
  ∃ t ts, tokens = t :: ts ∧ t ∉ closers ∧ (strict → Plain t)

section Leads

variable {strict strict' : Prop} {tokens more : List Token}

/-- A token that closes nothing leads. -/
lemma leads_cons {t : Token} (ht : t ∉ closers) (hplain : strict → Plain t) :
    Leads strict (t :: more) :=
  ⟨t, more, rfl, ht, hplain⟩

lemma Leads.append (h : Leads strict tokens) : Leads strict (tokens ++ more) := by
  obtain ⟨t, ts, rfl, ht, hplain⟩ := h
  exact leads_cons ht hplain

/-- So does a parenthesis. -/
lemma Leads.parens (h : Leads strict tokens) {needed : Bool}
    (hstrict : needed = false → strict' → strict) : Leads strict' (parens needed tokens) := by
  cases needed with
  | true => exact leads_cons (by decide) fun _ => by decide
  | false =>
    obtain ⟨t, ts, rfl, ht, hplain⟩ := h
    exact leads_cons ht fun h => hplain (hstrict rfl h)

end Leads

/-- Names are plain tokens. -/
lemma plain_word [Lexis] {name : String} (hname : isName name = true) : Plain (word name) := by
  obtain ⟨c, cs, hcs, hopens, -⟩ := Lexis.isName_iff.1 hname
  intro d hd
  change name.toList.head? = some d at hd
  rw [hcs] at hd
  cases hd
  intro hmem
  have hall : ∀ c ∈ ['+', '-', '=', '.'], c.toNat < 128 ∧
      (c.isAlpha || c == '_' || c == '$') = false := by
    decide
  obtain ⟨hascii, hnone⟩ := hall c hmem
  rw [opens_ascii hascii, hnone] at hopens
  cases hopens

/-- So are numerals. -/
lemma plain_numeral {text : String} (htext : IsNumeral text.toList) : Plain (numeral text) := by
  obtain ⟨whole, hne, hwhole, hcases⟩ := htext
  obtain ⟨d, whole, rfl⟩ := List.exists_cons_of_ne_nil hne
  have hhead : text.toList.head? = some d := by
    rcases hcases with heq | ⟨fraction, -, heq⟩ <;> rw [heq] <;> rfl
  intro c hc
  change text.toList.head? = some c at hc
  rw [hhead] at hc
  cases hc
  intro hmem
  have hall : ∀ c ∈ ['+', '-', '=', '.'], c.isDigit = false := by decide
  have hd := hwhole d List.mem_cons_self
  rw [hall d hmem] at hd
  cases hd

/-- So are literals. -/
lemma plain_literal (value : String) : Plain (literal value) := by
  intro c hc
  have hhead : (Text.literal value).toList.head? = some '"' := by simp [Text.literal]
  change (Text.literal value).toList.head? = some c at hc
  rw [hhead] at hc
  cases hc
  decide

lemma BinaryOp.precedence_le (op : BinaryOp) : op.precedence ≤ 13 := by
  cases op <;> decide

lemma le_precedence_of_bindsLooser {e : Expr} {p : ℕ} (h : e.bindsLooser p = false) :
    p ≤ e.precedence := by
  simpa [Expr.bindsLooser] using h

lemma le_precedence_of_target {e : Expr} (h : e.needsParensAsTarget = false) :
    18 ≤ e.precedence := by
  cases e <;> first | exact le_precedence_of_bindsLooser h | cases h

/-- An expression opens with a token that closes no bracket; if it binds tighter than a sign, no
sign runs into it. -/
lemma leads_tokens [Lexis] :
    ∀ e : Expr, e.WellFormed → Leads (16 ≤ e.precedence) e.tokens
  | .null, _ | .this, _ | .new _ _, _ | .object _, _ | .array _, _ =>
    leads_cons (by decide) fun _ => by decide
  | .boolean value, _ => by cases value <;> exact leads_cons (by decide) fun _ => by decide
  | .number d, h => by
    rw [Expr.tokens, Expr.precedence]
    cases hsign : d.isSignNegative with
    | false =>
      exact leads_cons (by simp [closers]) fun _ => plain_numeral (Double.isNumeral_text_abs h.1)
    | true =>
      have hzero : d.isZero = false := by simpa [hsign] using h.2.1
      refine leads_cons (by decide) fun hstrict => ?_
      rw [hzero] at hstrict
      exact absurd hstrict (by decide)
  | .string value, _ => leads_cons (by simp [closers]) fun _ => plain_literal value
  | .ident name, h => leads_cons (by simp [closers]) fun _ => plain_word h.1
  | .member target _, h => by
    refine ((leads_tokens target h.1).parens fun hneeded _ => ?_).append
    exact Nat.le_trans (by decide) (le_precedence_of_target hneeded)
  | .index target _, h | .call target _, h => by
    refine ((leads_tokens target h.1).parens fun hneeded _ => ?_).append.append
    exact Nat.le_trans (by decide) (le_precedence_of_target hneeded)
  | .binary op left _, h => by
    refine ((leads_tokens left h.1).parens fun _ hstrict => ?_).append
    have hlt := op.precedence_le
    change 16 ≤ op.precedence at hstrict
    omega
  | .unary op _, _ => by
    refine leads_cons (by cases op <;> decide) fun hstrict => ?_
    change 16 ≤ 15 at hstrict
    omega
  | .update _ operand, h => by
    refine ((leads_tokens operand h.1).parens fun hneeded _ => ?_).append
    exact Nat.le_trans (by decide) (le_precedence_of_bindsLooser hneeded)
  | .assign _ target _, h => by
    refine ((leads_tokens target h.1).parens fun _ hstrict => ?_).append
    change 16 ≤ 2 at hstrict
    omega
  | .conditional condition _ _, h => by
    refine ((leads_tokens condition h.1).parens fun _ hstrict => ?_).append.append
    change 16 ≤ 3 at hstrict
    omega
  | .comma (first :: rest), h => by
    have hfirst : Leads (16 ≤ (Expr.comma (first :: rest)).precedence)
        (parens (first.bindsLooser 2) first.tokens) := by
      refine (leads_tokens first h.2.1).parens fun _ hstrict => ?_
      change 16 ≤ 1 at hstrict
      omega
    rw [Expr.tokens, itemTokens]
    cases hrest : itemTokens rest with
    | nil => rwa [List.intercalate_singleton]
    | cons next others => rw [List.intercalate_cons_cons]; exact hfirst.append.append
  | .comma [], h => absurd h.1 (by decide)

/-- A dot, a sign or an assignment may stand right behind the token. -/
def Ends [Lexis] (t : Token) : Prop :=
  ∀ c ∈ ['.', '+', '-'], t.stopsBefore c

/-- A word ends an expression. -/
lemma ends_word [Lexis] (name : String) : Ends (word name) := by
  have hall : ∀ c ∈ ['.', '+', '-'], c.toNat < 128 ∧
      (c.isAlphanum || c == '_' || c == '$') = false := by
    decide
  intro c hc
  obtain ⟨hascii, hnone⟩ := hall c hc
  simp only [stopsBefore, continues_ascii hascii, hnone, Bool.not_false]

/-- So does a closing mark. -/
lemma ends_closer [Lexis] {m : String} (hm : m ∈ [")", "]", "\x7d"]) : Ends (mark m) := by
  have hall : ∀ m ∈ [")", "]", "\x7d"], ∀ c ∈ ['.', '+', '-'], markStopsBefore m c := by decide
  exact hall m hm

/-- An object that needs no parentheses ends in a word, a string literal or a bracket. -/
lemma ends_tokens [Lexis] {e : Expr} (he : e.needsParensAsTarget = false) :
    ∀ t ∈ e.tokens.getLast?, Ends t := by
  have hlow := le_precedence_of_target he
  intro t ht
  cases e with
  | null | this => cases ht; exact ends_word _
  | boolean value => cases ht; exact ends_word _
  | number d => cases he
  | string value => cases ht; intro c _; rfl
  | ident name => cases ht; exact ends_word name
  | member target name =>
    rw [Expr.tokens, List.getLast?_append_of_ne_nil _ (List.cons_ne_nil _ _)] at ht
    cases ht
    exact ends_word name
  | index target key | call target arguments | object properties | array items =>
    rw [Expr.tokens, List.getLast?_append_of_ne_nil _ (List.cons_ne_nil _ _)] at ht
    cases ht
    exact ends_closer (by decide)
  | new constructor arguments => exact absurd hlow (by show ¬ 18 ≤ 17; decide)
  | unary op operand => exact absurd hlow (by show ¬ 18 ≤ 15; decide)
  | update op operand => exact absurd hlow (by show ¬ 18 ≤ 16; decide)
  | assign op target value => exact absurd hlow (by show ¬ 18 ≤ 2; decide)
  | conditional condition whenTrue whenFalse => exact absurd hlow (by show ¬ 18 ≤ 3; decide)
  | comma items => exact absurd hlow (by show ¬ 18 ≤ 1; decide)
  | function name parameters body => cases he
  | binary op left right =>
    have hle := op.precedence_le
    change 18 ≤ op.precedence at hlow
    omega

/-- In parentheses or not, the object of a member access ends so that a dot may follow. -/
lemma ends_target [Lexis] (e : Expr) :
    ∀ t ∈ (parens e.needsParensAsTarget e.tokens).getLast?, Ends t := by
  cases he : e.needsParensAsTarget with
  | false => exact ends_tokens he
  | true =>
    intro t ht
    rw [parens, if_pos rfl, List.getLast?_append_of_ne_nil _ (List.cons_ne_nil _ _)] at ht
    cases ht
    exact ends_closer (by decide)

/-! ## Signs and opening brackets -/

/-- A mark ends in front of a character that no longer mark goes on with. -/
lemma markStopsBefore_of_longer {m : String} {c : Char}
    (hlonger : ∀ longer ∈ marks, m.toList.isPrefixOf longer.toList →
      ∀ d ∈ (longer.toList.drop m.toList.length).head?, d ≠ c)
    (hcomment : m.toList.head? ≠ some '/' ∧ m ≠ "") : markStopsBefore m c := by
  have hall : ∀ longer ∈ marks, (m.toList ++ [c]).isPrefixOf longer.toList = false := by
    intro longer hmem
    rw [Bool.eq_false_iff]
    intro hfront
    obtain ⟨more, hmore⟩ := List.isPrefixOf_iff_prefix.1 hfront
    have hprefix : m.toList.isPrefixOf longer.toList :=
      List.isPrefixOf_iff_prefix.2 ⟨c :: more, by rw [← hmore, List.append_cons]⟩
    refine hlonger longer hmem hprefix c ?_ rfl
    rw [← hmore, List.append_assoc, List.drop_left]
    rfl
  have hopens : opensComment (m.toList ++ [c]) = false := by
    obtain ⟨hslash, hne⟩ := hcomment
    cases hm : m.toList with
    | nil => exact absurd (String.toList_eq_nil_iff.1 hm) hne
    | cons d ds =>
      have hd : ('/' == d) = false := by
        refine beq_eq_false_iff_ne.2 ?_
        rintro rfl
        exact hslash (by rw [hm]; rfl)
      simp only [opensComment, List.cons_append, List.isPrefixOf, hd, Bool.false_and, Bool.or_false]
  simp only [markStopsBefore, hopens, Bool.not_false, Bool.and_true, List.all_eq_true,
    Bool.not_eq_true']
  exact hall

/-- Everything may stand right behind an opening bracket. -/
lemma apart_opening [Lexis] {m : String} (hm : m ∈ ["(", "[", "\x7b"]) (t : Token) :
    (mark m).apart t := by
  have hall : ∀ m ∈ ["(", "[", "\x7b"], (m.toList.head? ≠ some '/' ∧ m ≠ "") ∧
      ∀ longer ∈ marks, m.toList.isPrefixOf longer.toList →
        (longer.toList.drop m.toList.length).head? = none := by
    decide
  obtain ⟨hcomment, hnone⟩ := hall m hm
  rw [apart, Option.all_eq_true]
  intro c _
  refine markStopsBefore_of_longer (fun longer hmem hfront d hd => ?_) hcomment
  rw [hnone longer hmem hfront] at hd
  cases hd

lemma UnaryOp.lead_eq {op : UnaryOp} (hop : op ≠ .typeOf) : op.lead = mark op.token := by
  cases op <;> first | rfl | exact absurd rfl hop

/-- A sign may stand in front of a plain token. -/
lemma apart_lead_plain [Lexis] (op : UnaryOp) (hop : op ≠ .typeOf) {t : Token} (ht : Plain t) :
    op.lead.apart t := by
  have hall : ∀ op ∈ UnaryOp.all, (op.token.toList.head? ≠ some '/' ∧ op.token ≠ "") ∧
      ∀ longer ∈ marks, op.token.toList.isPrefixOf longer.toList →
        ∀ d ∈ (longer.toList.drop op.token.toList.length).head?, d ∈ ['+', '-', '=', '.'] := by
    decide
  have hmem : op ∈ UnaryOp.all := by cases op <;> decide
  obtain ⟨hcomment, hlonger⟩ := hall op hmem
  rw [UnaryOp.lead_eq hop, apart, Option.all_eq_true]
  intro c hc
  refine markStopsBefore_of_longer (fun longer hlongerMem hfront d hd hdc => ?_) hcomment
  subst hdc
  exact ht d hc (hlonger longer hlongerMem hfront d hd)

/-- Only signs bind as tight as signs. -/
lemma eq_of_precedence_eq {e : Expr} (he : e.precedence = 15) :
    (∃ op operand, e = .unary op operand) ∨ ∃ d, e = .number d ∧ d.isSignNegative = true := by
  cases e with
  | unary op operand => exact .inl ⟨op, operand, rfl⟩
  | number d =>
    refine .inr ⟨d, rfl, ?_⟩
    rw [Expr.precedence] at he
    cases hsign : d.isSignNegative with
    | true => rfl
    | false => simp [hsign] at he
  | binary op left right =>
    have hle := op.precedence_le
    change op.precedence = 15 at he
    omega
  | _ => simp [Expr.precedence] at he

/-- The operator may stand in front of its operand, unless the printer finds that they run into each
other. -/
lemma apart_lead [Lexis] {op : UnaryOp} (hop : op ≠ .typeOf)
    {operand : Expr} (hoperand : operand.WellFormed)
    (hruns : operand.runsInto op = false) :
    ∀ t ∈ (parens (operand.bindsLooser 15) operand.tokens).head?, op.lead.apart t := by
  intro t ht
  cases hneeded : operand.bindsLooser 15 with
  | true =>
    rw [hneeded] at ht
    cases ht
    exact apart_lead_plain op hop (by decide)
  | false =>
    rw [hneeded, parens, if_neg (by decide)] at ht
    have hlow := le_precedence_of_bindsLooser hneeded
    rcases Nat.eq_or_lt_of_le hlow with heq | hlt
    · rcases eq_of_precedence_eq heq.symm with ⟨inner, operand, rfl⟩ | ⟨d, rfl, hsign⟩
      · cases ht
        have hall : ∀ op ∈ UnaryOp.all, op ≠ .typeOf → ∀ inner ∈ UnaryOp.all,
            op.runsInto inner = false → inner.lead.chars.head?.all (markStopsBefore op.token) := by
          decide
        rw [UnaryOp.lead_eq hop]
        exact hall op (by cases op <;> decide) hop inner (by cases inner <;> decide) hruns
      · rw [Expr.tokens, if_pos hsign] at ht
        cases ht
        have hnegate : op ≠ .negate := by
          rintro rfl
          simp [Expr.runsInto, hsign] at hruns
        have hall : ∀ op ∈ UnaryOp.all, op ≠ .typeOf → op ≠ .negate →
            markStopsBefore op.token '-' := by
          decide
        rw [UnaryOp.lead_eq hop]
        exact hall op (by cases op <;> decide) hop hnegate
    · obtain ⟨u, us, heq, -, hplain⟩ := leads_tokens operand hoperand
      rw [heq] at ht
      cases ht
      exact apart_lead_plain op hop (hplain hlt)

/-! ## Spelling -/

section Rules

variable [Lexis] {text : String} {tokens : List Token}

/-- A name spells its word. -/
lemma spells_word {name : String} (hname : isName name = true) :
    Spells name.toList [word name] :=
  Spells.token (t := word name) hname

/-- A keyword on its own. -/
lemma spells_keyword (keyword : String) (h : Lexis.isAsciiName keyword = true) :
    Spells keyword.toList [word keyword] :=
  spells_word (isName_of_ascii h)

/-- A numeral spells its token. -/
lemma spells_numeral {text : String} (htext : IsNumeral text.toList) :
    Spells text.toList [numeral text] :=
  Spells.token (t := numeral text) htext

/-- A literal spells its token. -/
lemma spells_literal (value : String) : Spells (Text.literal value).toList [literal value] :=
  Spells.token (t := literal value) trivial

/-- A text behind an opening bracket. -/
lemma Spells.opening {m : String} (hm : m ∈ ["(", "[", "\x7b"]) {cs : List Char}
    (h : Spells cs tokens) : Spells (m.toList ++ cs) (mark m :: tokens) := by
  have hall : ∀ m ∈ ["(", "[", "\x7b"], m ∈ marks := by decide
  refine (Spells.of_mark (hall m hm)).append h fun t ht u _ => ?_
  cases ht
  exact apart_opening hm u

/-- A text in front of a closing bracket. -/
lemma Spells.closing {m : String} (hm : m ∈ [")", "]", "\x7d"]) {cs : List Char}
    (h : Spells cs tokens) : Spells (cs ++ m.toList) (tokens ++ [mark m]) := by
  have hall : ∀ m ∈ [")", "]", "\x7d"], m ∈ marks ∧ ∀ c ∈ m.toList.head?, c ∈ Token.closing := by
    decide
  obtain ⟨hmem, hclosing⟩ := hall m hm
  refine h.append_closing (Spells.of_mark hmem) fun u hu c hc => ?_
  cases hu
  exact hclosing c hc

/-- A bracket behind an object. -/
lemma Spells.append_bracket {m : String} (hm : m ∈ ["(", "["]) {cs cs' : List Char}
    {more : List Token} (h : Spells cs tokens) (h' : Spells cs' (mark m :: more)) :
    Spells (cs ++ cs') (tokens ++ mark m :: more) := by
  have hall : ∀ m ∈ ["(", "["], ∀ c ∈ m.toList.head?, c ∈ Token.closing := by decide
  refine h.append_closing h' fun u hu c hc => ?_
  cases hu
  exact hall m hm c hc

/-- Parentheses are spelled where they are needed. -/
lemma spells_enclose (h : Spells text.toList tokens) (needed : Bool) :
    Spells (enclose needed text).toList (parens needed tokens) := by
  cases needed with
  | false => exact h
  | true =>
    have hboth := (h.opening (m := "(") (by decide)).closing (m := ")") (by decide)
    simpa [enclose, parens] using hboth

/-- A list in brackets. -/
lemma spells_list (opening closing : String) (hopening : opening ∈ ["(", "[", "\x7b"])
    (hclosing : closing ∈ [")", "]", "\x7d"]) {texts : List String} {parts : List (List Token)}
    (h : List.Forall₂ Spells (texts.map String.toList) parts) :
    Spells (opening ++ ", ".intercalate texts ++ closing).toList
      (mark opening :: [mark ","].intercalate parts ++ [mark closing]) := by
  rw [String.toList_append, String.toList_append, String.toList_intercalate]
  by_cases hne : parts = []
  · subst hne
    cases htexts : texts with
    | cons text texts => rw [htexts] at h; cases h
    | nil =>
      have hall : ∀ m ∈ ["(", "[", "\x7b"], m ∈ marks := by decide
      simpa using (Spells.of_mark (hall opening hopening)).closing hclosing
  · exact ((Spells.separated h hne).opening hopening).closing hclosing

/-- Texts around an operator with blanks on both sides. -/
lemma Spells.infixed {m : String} (hm : m ∈ marks) {cs cs' : List Char} {tokens' : List Token}
    (h : Spells cs tokens) (h' : Spells cs' tokens') :
    Spells (cs ++ ' ' :: (m.toList ++ ' ' :: cs')) (tokens ++ mark m :: tokens') :=
  h.blank ((Spells.of_mark hm).blank h')

/-- A member behind an object. -/
lemma Spells.member {name : String} (hname : isName name = true) {cs : List Char}
    (h : Spells cs tokens) (hends : ∀ t ∈ tokens.getLast?, Ends t) :
    Spells (cs ++ '.' :: name.toList) (tokens ++ [mark ".", word name]) := by
  have hdot : Spells ('.' :: name.toList) [mark ".", word name] := by
    refine (Spells.of_mark (m := ".") (by decide)).append (spells_word hname) fun t ht u hu => ?_
    cases ht
    cases hu
    rw [apart, Option.all_eq_true]
    intro c hc
    have hlonger : ∀ longer ∈ marks, ".".toList.isPrefixOf longer.toList →
        ∀ d ∈ (longer.toList.drop ".".toList.length).head?, d = '.' := by
      decide
    refine markStopsBefore_of_longer (fun longer hmem hfront d hd hdc => ?_) (by decide)
    have hplain := plain_word hname c hc
    rw [← hdc, hlonger longer hmem hfront d hd] at hplain
    exact hplain (by decide)
  refine h.append hdot fun t ht u hu => ?_
  cases hu
  exact hends t ht '.' (by decide)

end Rules

lemma BinaryOp.token_mem_marks (op : BinaryOp) : op.token ∈ marks := by
  cases op <;> decide

/-- Assignment tokens are marks. -/
lemma assignToken_mem_marks {op : Option BinaryOp} (hop : ∀ o ∈ op, o ∉ comparisons) :
    assignToken op ∈ marks := by
  cases op with
  | none => decide
  | some op => cases op <;> first | decide | exact absurd (hop _ rfl) (by decide)

/-- A constructor that holds a call binds as tight as a call, so it is enclosed once. -/
lemma enclose_constructor (constructor : Expr) (text : String) :
    enclose constructor.holdsCall (enclose (constructor.bindsLooser 18) text) =
      enclose (constructor.holdsCall || constructor.bindsLooser 18) text := by
  cases hcall : constructor.holdsCall with
  | false => rfl
  | true =>
    have hbinds : constructor.bindsLooser 18 = false := by
      cases constructor <;> first | rfl | cases hcall
    rw [hbinds]
    rfl

/-- An operand that can be assigned to stands without parentheses. -/
lemma isTarget_tight {e : Expr} (he : isTarget e = true) :
    e.needsParensAsTarget = false ∧ 18 ≤ e.precedence := by
  cases e <;> simp [isTarget] at he <;>
    simp [Expr.needsParensAsTarget, Expr.bindsLooser, Expr.precedence]

section Main

variable [Lexis] (layout : Layout) (depth : ℕ)

/-- A finite number spells its tokens. -/
lemma spells_number {d : Double} (hd : d.isFinite = true) :
    Spells d.text.toList (Expr.number d).tokens := by
  have hnumeral := Double.isNumeral_text_abs hd
  rw [Double.text_eq_sign_append hd, Expr.tokens]
  cases d.isSignNegative with
  | false => simpa using spells_numeral hnumeral
  | true =>
    have hsign : Spells ("-".toList ++ d.abs.text.toList)
        ([mark "-"] ++ [Token.numeral d.abs.text]) := by
      refine (Spells.of_mark (by decide)).append (spells_numeral hnumeral) fun t ht u hu => ?_
      cases ht
      cases hu
      exact apart_lead_plain .negate (by decide) (plain_numeral hnumeral)
    simpa using hsign

/-- So does a unary operation. -/
lemma spells_unary {op : UnaryOp} {operand : Expr} (hoperand : operand.WellFormed)
    (h : Spells (operand.core layout depth).toList operand.tokens) :
    Spells ((Expr.unary op operand).core layout depth).toList (Expr.unary op operand).tokens := by
  have hslot := spells_enclose h (operand.bindsLooser 15)
  by_cases hop : op = .typeOf
  · subst hop
    have hruns : operand.runsInto .typeOf = false := by cases operand <;> rfl
    have hword := spells_keyword "typeof" (by decide)
    simpa [Expr.core, Expr.tokens, UnaryOp.token, UnaryOp.lead, hruns] using hword.blank hslot
  · have hlead := UnaryOp.lead_eq hop
    have hmem : op.token ∈ marks := by cases op <;> first | decide | exact absurd rfl hop
    have hmark := Spells.of_mark hmem
    rw [Expr.core, Expr.tokens]
    cases hruns : operand.runsInto op with
    | true => simpa [hlead] using hmark.blank hslot
    | false =>
      have hapart := apart_lead hop hoperand hruns
      have hboth := hmark.append hslot fun t ht u hu => by
        cases ht
        rw [← hlead]
        exact hapart u hu
      simpa [hlead] using hboth

/-- So does a property. -/
lemma spells_property {name : String} {value : Expr}
    (hname : Text.isIdentifier name = true → isName name = true)
    (h : Spells (value.core layout depth).toList value.tokens) :
    Spells
      (propertyKey name ++ ": " ++ enclose (value.bindsLooser 2) (value.core layout depth)).toList
      (keyToken name :: mark ":" :: parens (value.bindsLooser 2) value.tokens) := by
  have hkey : Spells (propertyKey name).toList [keyToken name] := by
    unfold propertyKey keyToken
    split_ifs with hplain
    · exact spells_word (hname hplain)
    · exact spells_literal name
  have hcolon := hkey.append_closing (Spells.of_mark (m := ":") (by decide)) (by decide)
  simpa using hcolon.blank (spells_enclose h (value.bindsLooser 2))

attribute [local simp] Expr.core Expr.tokens

mutual

/-- The text of an expression spells its tokens. -/
theorem spells_expr : ∀ e : Expr, e.WellFormed →
    Spells (e.core layout depth).toList e.tokens
  | .null, _ => spells_keyword "null" (by decide)
  | .this, _ => spells_keyword "this" (by decide)
  | .boolean true, _ => spells_keyword "true" (by decide)
  | .boolean false, _ => spells_keyword "false" (by decide)
  | .number _, h => spells_number h.1
  | .string value, _ => spells_literal value
  | .ident _, h => spells_word h.1
  | .member target name, h => by
    have htarget := spells_enclose (spells_expr target h.1) target.needsParensAsTarget
    simpa using htarget.member h.2 (ends_target target)
  | .index target key, h => by
    have htarget := spells_enclose (spells_expr target h.1) target.needsParensAsTarget
    have hkey :=
      ((spells_expr key h.2).opening (m := "[") (by decide)).closing (m := "]") (by decide)
    simpa using htarget.append_bracket (by decide) hkey
  | .call target arguments, h => by
    have htarget := spells_enclose (spells_expr target h.1) target.needsParensAsTarget
    have harguments := spells_list "(" ")" (by decide) (by decide)
      (spells_items arguments h.2)
    simpa using htarget.append_bracket (by decide) harguments
  | .new constructor arguments, h => by
    have hword := spells_keyword "new" (by decide)
    have hconstructor := spells_enclose (spells_expr constructor h.1)
      (constructor.holdsCall || constructor.bindsLooser 18)
    have harguments := spells_list "(" ")" (by decide) (by decide)
      (spells_items arguments h.2)
    rw [Expr.core, enclose_constructor]
    simpa using
      (hword.blank hconstructor).append_bracket (by decide) harguments
  | .object [], _ => by
    have hbraces := (Spells.of_mark (m := "\x7b") (by decide)).closing (m := "\x7d") (by decide)
    simpa [propertyTokens] using hbraces
  | .object (property :: properties), h => by
    have hitems := Spells.separated (spells_properties (property :: properties) h)
      (by cases property; exact List.cons_ne_nil _ _)
    have hbraces := ((Spells.of_mark (m := "\x7b") (by decide)).blank hitems).blank
      (Spells.of_mark (m := "\x7d") (by decide))
    simpa [String.toList_intercalate] using hbraces
  | .array items, h => by
    have hitems := spells_list "[" "]" (by decide) (by decide)
      (spells_items items h)
    simpa using hitems
  | .binary op left right, h => by
    have hleft := spells_enclose (spells_expr left h.1) (left.needsParensBeside op op.precedence)
    have hright := spells_enclose (spells_expr right h.2)
      (right.needsParensBeside op (op.precedence + 1))
    simpa using hleft.infixed op.token_mem_marks hright
  | .unary op operand, h => spells_unary layout depth h.1 (spells_expr operand h.1)
  | .update op operand, h => by
    have htight := isTarget_tight h.2
    have hbinds : operand.bindsLooser 17 = false := by
      simp only [Expr.bindsLooser, decide_eq_false_iff_not]
      omega
    have hmark : Spells op.token.toList [mark op.token] :=
      Spells.of_mark (by cases op <;> decide)
    have hboth := (spells_expr operand h.1).append hmark fun t ht u hu => by
      have hends := ends_tokens htight.1 t ht
      cases hu
      cases op
      · exact hends '+' (by decide)
      · exact hends '-' (by decide)
    simpa [hbinds, enclose, parens] using hboth
  | .assign op target value, h => by
    have htarget := spells_enclose (spells_expr target h.1) (target.bindsLooser 16)
    have hvalue := spells_enclose (spells_expr value h.2.2.1) (value.bindsLooser 2)
    simpa using
      htarget.infixed (assignToken_mem_marks h.2.2.2) hvalue
  | .conditional condition whenTrue whenFalse, h => by
    have hcondition := spells_enclose (spells_expr condition h.1) (condition.bindsLooser 4)
    have htrue := spells_enclose (spells_expr whenTrue h.2.1) (whenTrue.bindsLooser 2)
    have hfalse := spells_enclose (spells_expr whenFalse h.2.2) (whenFalse.bindsLooser 2)
    have hall := hcondition.infixed (m := "?") (by decide)
      (htrue.infixed (m := ":") (by decide) hfalse)
    simpa using hall
  | .comma items, h => by
    have hne : itemTokens items ≠ [] := by
      cases items with
      | nil => exact absurd h.1 (by decide)
      | cons => exact List.cons_ne_nil _ _
    have hitems := Spells.separated (spells_items items h.2) hne
    simpa [String.toList_intercalate] using hitems

/-- The texts of the items of a list spell their tokens. -/
theorem spells_items : ∀ items : List Expr, AllWellFormed items →
    List.Forall₂ Spells ((itemTexts layout depth items).map String.toList) (itemTokens items)
  | [], _ => .nil
  | e :: rest, h =>
    .cons (spells_enclose (spells_expr e h.1) (e.bindsLooser 2)) (spells_items rest h.2)

/-- The texts of properties spell their tokens. -/
theorem spells_properties : ∀ properties : List Property,
    PropertiesWellFormed properties →
    List.Forall₂ Spells ((propertyTexts layout depth properties).map String.toList)
      (propertyTokens properties)
  | [], _ => .nil
  | .mk _ value :: rest, h =>
    .cons (spells_property layout depth h.1 (spells_expr value h.2.1)) (spells_properties rest h.2.2)

end

end Main

end Script

end ScriptCompiler
