import ScriptCompiler.Proofs.Printing.Levels
import ScriptCompiler.Proofs.Printing.Spelling

/-!
# Printed expressions read back

The parser reads the tokens of an expression as the expression.  An operand that the printer leaves
without parentheses binds tight enough for the level that reads it there, and in parentheses every
expression is a primary one.

Operators that group to the left are read by a loop, so their case is about the loop: with the left
operand read, the loop goes on with the operator behind it.  The same holds of member accesses and
calls behind an object.
-/

namespace ScriptCompiler.Script

open Token
open Grammar

/-! ## Levels of expressions -/

/-- The tightest level that reads the expression.  The last branch of a conditional takes
assignments, so only the level of assignments reads a conditional to its end. -/
def Expr.level : Expr → ℕ
  | .conditional .. => 2
  | e => e.precedence

/-- The table of the operator. -/
def BinaryOp.table : BinaryOp → Table
  | .nullCoalescing => coalescings
  | .logicalOr => disjunctions
  | .logicalAnd => conjunctions
  | op => levels.getD (op.precedence - 6) []

/-- The level of the operands of the operator. -/
def BinaryOp.operandLevel : BinaryOp → ℕ
  | .nullCoalescing => 6
  | op => op.precedence + 1

lemma BinaryOp.mem_all (op : BinaryOp) : op ∈ BinaryOp.all := by
  cases op <;> decide

/-- An operator is found in the table of its level. -/
lemma BinaryOp.table_lookup (op : BinaryOp) : op.table.lookup (mark op.token) = some op := by
  cases op <;> decide

/-- Its token is as strong as its precedence. -/
lemma BinaryOp.strength_token (op : BinaryOp) : strength (mark op.token) = op.precedence := by
  cases op <;> decide

/-- Its operands bind tighter. -/
lemma BinaryOp.operandLevel_bounds (op : BinaryOp) :
    op.precedence < op.operandLevel ∧ 4 ≤ op.precedence ∧ op.operandLevel ≤ 14 := by
  cases op <;> decide

/-- Operators of one level that may stand side by side have the same table. -/
lemma BinaryOp.table_eq {op inner : BinaryOp} (hmix : op.mixesCoalescing inner = false)
    (hle : op.precedence ≤ inner.precedence) (hlt : inner.precedence < op.operandLevel) :
    inner.table = op.table ∧ inner.operandLevel = op.operandLevel := by
  have hall : ∀ op ∈ BinaryOp.all, ∀ inner ∈ BinaryOp.all, op.mixesCoalescing inner = false →
      op.precedence ≤ inner.precedence → inner.precedence < op.operandLevel →
        inner.table = op.table ∧ inner.operandLevel = op.operandLevel := by
    decide
  exact hall op op.mem_all inner inner.mem_all hmix hle hlt

/-- On the right of an operator, what binds tighter and may stand beside it is an operand. -/
lemma BinaryOp.operandLevel_le {op inner : BinaryOp} (hmix : op.mixesCoalescing inner = false)
    (hle : op.precedence + 1 ≤ inner.precedence) : op.operandLevel ≤ inner.precedence := by
  have hall : ∀ op ∈ BinaryOp.all, ∀ inner ∈ BinaryOp.all, op.mixesCoalescing inner = false →
      op.precedence + 1 ≤ inner.precedence → op.operandLevel ≤ inner.precedence := by
    decide
  exact hall op op.mem_all inner inner.mem_all hmix hle

/-- The levels from four to thirteen are those of binary operators. -/
lemma exists_binary {e : Expr} (hlow : 4 ≤ e.precedence) (hhigh : e.precedence ≤ 13) :
    ∃ op left right, e = .binary op left right := by
  cases e with
  | binary op left right => exact ⟨op, left, right, rfl⟩
  | number d =>
    rw [Expr.precedence] at hhigh
    split at hhigh <;> omega
  | _ => simp [Expr.precedence] at hlow hhigh

lemma Expr.one_le_precedence (e : Expr) : 1 ≤ e.precedence := by
  cases e with
  | binary op left right =>
    have hle := op.operandLevel_bounds.2.1
    change 1 ≤ op.precedence
    omega
  | number d =>
    rw [Expr.precedence]
    split <;> decide
  | _ => simp [Expr.precedence]

/-- Above assignments, levels are precedences. -/
lemma level_eq_precedence {e : Expr} (h : 4 ≤ e.precedence) : e.level = e.precedence := by
  cases e <;> first | rfl | exact absurd h (by show ¬ 4 ≤ 3; decide)

lemma le_level {e : Expr} {p : ℕ} (hp : p ≤ e.precedence) (hne : p ≠ 3) : p ≤ e.level := by
  cases e with
  | conditional condition whenTrue whenFalse =>
    change p ≤ 3 at hp
    change p ≤ 2
    omega
  | _ => exact hp

/-- Targets read back as targets. -/
lemma isTarget_read {e : Expr} (he : isTarget e = true) : isTarget e.read = true := by
  cases e <;> first | rfl | cases he

/-! ## Expressions that the grammar reads -/

/-- How the levels over `inner` read an expression. -/
structure Readable [Lexis] (inner : Parser Expr) (e : Expr) : Prop where
  reads : Reads (Grammar.level inner e.level) e.level e.tokens e.read
  /-- The loop of its level goes on behind a binary operation. -/
  spine : ∀ {op left right}, e = .binary op left right →
    Spine op.table (Grammar.level inner op.operandLevel) op.operandLevel e.tokens e.read
  /-- The first operand of a chain of `??` is followed by `??`. -/
  first : ∀ {left right}, e = .binary .nullCoalescing left right → ∀ rest, ∃ e' behind,
    Grammar.binary inner levels (e.tokens ++ rest) = some (e', mark "??" :: behind)
  /-- Members and calls behind an object are read next. -/
  trails : 17 ≤ e.precedence → ∀ calls, (calls = false → e.holdsCall = false) →
    Trails inner calls e.tokens e.read

/-- Every bound on the nesting that is at least the number of tokens will do. -/
def ReadableWithin [Lexis] (e : Expr) : Prop :=
  ∀ depth, e.tokens.length ≤ depth → Readable (assignment depth) e

/-- A well-formed expression that the grammar reads. -/
structure Legible [Lexis] (e : Expr) : Prop where
  wellFormed : e.WellFormed
  readable : ReadableWithin e

section Slots

variable [Lexis] {e : Expr} {depth : ℕ} {needed : Bool}

/-- A legible expression has tokens. -/
lemma Legible.tokens_ne_nil (h : Legible e) : e.tokens ≠ [] := by
  obtain ⟨t, ts, heq, -⟩ := leads_tokens e h.wellFormed
  rw [heq]
  exact List.cons_ne_nil _ _

/-- A whole expression is read inside brackets. -/
lemma reads_whole (h : Legible e) (hdepth : e.tokens.length < depth) :
    Reads (expression (assignment depth)) 1 e.tokens e.read := by
  obtain ⟨depth, rfl⟩ : ∃ d, depth = d + 1 :=
    Nat.exists_eq_add_one.2 (Nat.lt_of_le_of_lt (Nat.zero_le _) hdepth)
  have hone : 1 ≤ e.level := le_level e.one_le_precedence (by decide)
  exact (h.readable depth (Nat.le_of_lt_succ hdepth)).reads.of_le h.tokens_ne_nil hone

/-- In parentheses every expression is a primary one. -/
lemma reads_primary (h : Legible e) (hdepth : (parens true e.tokens).length ≤ depth) :
    Reads (primary (assignment depth)) 19 (parens true e.tokens) e.read := by
  refine reads_parens (reads_whole h ?_)
  simp only [parens, if_true, List.cons_append, List.length_cons, List.length_append] at hdepth
  omega

/-- The operand of a position that asks for the level `p`. -/
lemma reads_slot (needed : Bool) (p : ℕ) (h : Legible e) (hp : p ≤ 19)
    (hlevel : needed = false → p ≤ e.level) (hdepth : (parens needed e.tokens).length ≤ depth) :
    Reads (Grammar.level (assignment depth) p) p (parens needed e.tokens) e.read := by
  cases needed with
  | true => exact Reads.of_le (q := 19) (List.cons_ne_nil _ _) hp (reads_primary h hdepth)
  | false => exact (h.readable depth hdepth).reads.of_le h.tokens_ne_nil (hlevel rfl)

/-- An item of a list, a branch of a conditional or the value of an assignment. -/
lemma reads_item (h : Legible e)
    (hdepth : (parens (e.bindsLooser 2) e.tokens).length < depth) :
    Reads (assignment depth) 2 (parens (e.bindsLooser 2) e.tokens) e.read := by
  obtain ⟨depth, rfl⟩ : ∃ d, depth = d + 1 :=
    Nat.exists_eq_add_one.2 (Nat.lt_of_le_of_lt (Nat.zero_le _) hdepth)
  refine reads_slot _ 2 h (by decide) (fun hneeded => ?_) (Nat.le_of_lt_succ hdepth)
  exact le_level (le_precedence_of_bindsLooser hneeded) (by decide)

/-- The object of a member access or a call. -/
lemma trails_slot (h : Legible e) {calls : Bool}
    (hlevel : needed = false → 17 ≤ e.precedence ∧ (calls = false → e.holdsCall = false))
    (hdepth : (parens needed e.tokens).length ≤ depth) :
    Trails (assignment depth) calls (parens needed e.tokens) e.read := by
  cases needed with
  | true => exact (reads_primary h hdepth).trails calls
  | false =>
    obtain ⟨hprecedence, hcalls⟩ := hlevel rfl
    exact (h.readable depth hdepth).trails hprecedence calls hcalls

end Slots

/-! ## One case for each kind of expression -/

section Cases

variable [Lexis] {inner : Parser Expr} {e : Expr} {depth : ℕ}

/-- A primary expression is readable. -/
lemma Readable.of_primary (hprecedence : e.precedence = 20)
    (h : Reads (primary inner) 19 e.tokens e.read) : Readable inner e where
  reads := by
    rw [level_eq_precedence (by omega), hprecedence]
    exact fun rest _ => h rest (stops_primary rest)
  spine := by
    rintro op left right rfl
    have hle := op.precedence_le
    change op.precedence = 20 at hprecedence
    omega
  first := by
    rintro left right rfl
    change 4 = 20 at hprecedence
    omega
  trails := fun _ calls _ => h.trails calls

/-- So is what can have suffixes. -/
lemma Readable.of_trails (hlow : 17 ≤ e.precedence) (hhigh : e.precedence ≤ 18)
    (h : ∀ calls, (calls = false → e.holdsCall = false) →
      Trails inner calls e.tokens e.read) : Readable inner e where
  reads := by
    have hread := (h true fun hcalls => by cases hcalls).reads
    rw [level_eq_precedence (by omega)]
    obtain heq | heq : e.precedence = 17 ∨ e.precedence = 18 := by omega
    · rw [heq]
      exact fun rest hrest => hread rest (hrest.mono (by decide))
    · rw [heq]
      exact hread
  spine := by
    rintro op left right rfl
    have hle := op.precedence_le
    change 17 ≤ op.precedence at hlow
    omega
  first := by
    rintro left right rfl
    change 17 ≤ 4 at hlow
    omega
  trails := fun _ => h

/-- So is what its level reads. -/
lemma Readable.of_reads (hbinary : ∀ op left right, e ≠ .binary op left right)
    (hprecedence : e.precedence < 17)
    (h : Reads (Grammar.level inner e.level) e.level e.tokens e.read) :
    Readable inner e where
  reads := h
  spine := fun heq => absurd heq (hbinary _ _ _)
  first := fun heq => absurd heq (hbinary _ _ _)
  trails := fun hlow => absurd hlow (by omega)

/-! ### Binary operations -/

section Binary

variable {op : BinaryOp} {left right : Expr}

/-- The left operand, with or without parentheses, starts the loop of its operator. -/
lemma spine_left (h : Legible left)
    (hdepth : (parens (left.needsParensBeside op op.precedence) left.tokens).length ≤ depth) :
    Spine op.table (Grammar.level (assignment depth) op.operandLevel)
      op.operandLevel (parens (left.needsParensBeside op op.precedence) left.tokens) left.read := by
  obtain ⟨-, hlow, hhigh⟩ := op.operandLevel_bounds
  cases hneeded : left.needsParensBeside op op.precedence with
  | true =>
    rw [hneeded] at hdepth
    exact (reads_slot _ op.operandLevel h (by omega) (fun h => by cases h) hdepth).spine
  | false =>
    rw [hneeded] at hdepth
    obtain ⟨hmix, hbinds⟩ := Bool.or_eq_false_iff.1 hneeded
    have hle := le_precedence_of_bindsLooser hbinds
    by_cases hoperand : op.operandLevel ≤ left.precedence
    · have hlevel := level_eq_precedence (e := left) (by omega)
      refine (reads_slot _ op.operandLevel h (by omega) (fun _ => ?_) hdepth).spine
      rwa [hlevel]
    · -- then the operand is of the level of the operator itself, and its loop has begun
      obtain ⟨inner, x, y, rfl⟩ := exists_binary (e := left) (by omega) (by omega)
      obtain ⟨htable, hlevel⟩ := BinaryOp.table_eq hmix hle (Nat.not_le.1 hoperand)
      have hspine := (h.readable depth hdepth).spine rfl
      rwa [htable, hlevel] at hspine

/-- The right operand is read by the level of operands. -/
lemma reads_right (h : Legible right)
    (hdepth :
      (parens (right.needsParensBeside op (op.precedence + 1)) right.tokens).length ≤ depth) :
    Reads (Grammar.level (assignment depth) op.operandLevel) op.operandLevel
      (parens (right.needsParensBeside op (op.precedence + 1)) right.tokens) right.read := by
  obtain ⟨-, hlow, hhigh⟩ := op.operandLevel_bounds
  refine reads_slot _ _ h (by omega) (fun hneeded => ?_) hdepth
  obtain ⟨hmix, hbinds⟩ := Bool.or_eq_false_iff.1 hneeded
  have hle := le_precedence_of_bindsLooser hbinds
  rw [level_eq_precedence (by omega)]
  by_cases hoperand : right.precedence ≤ 13
  · obtain ⟨inner, x, y, rfl⟩ := exists_binary (e := right) (by omega) hoperand
    exact BinaryOp.operandLevel_le hmix hle
  · omega

/-- The first operand of a chain of `??` is read in front of `??`. -/
lemma first_left (h : Legible left)
    (hdepth : (parens (left.needsParensBeside .nullCoalescing 4) left.tokens).length ≤ depth)
    (rest : List Token) : ∃ e' behind,
      Grammar.binary (assignment depth) levels
        (parens (left.needsParensBeside .nullCoalescing 4) left.tokens ++ mark "??" :: rest) =
      some (e', mark "??" :: behind) := by
  have hstops : Stops 6 (mark "??" :: rest) := stops_cons (by decide) rest
  by_cases hneeded : left.needsParensBeside .nullCoalescing 4 = false ∧ left.precedence < 6
  · obtain ⟨hneeded, hlt⟩ := hneeded
    rw [hneeded] at hdepth ⊢
    obtain ⟨hmix, hbinds⟩ := Bool.or_eq_false_iff.1 hneeded
    have hle := le_precedence_of_bindsLooser hbinds
    obtain ⟨inner, x, y, rfl⟩ := exists_binary hle (by omega)
    have hinner : inner = .nullCoalescing := by
      change BinaryOp.mixesCoalescing .nullCoalescing inner = false at hmix
      change inner.precedence < 6 at hlt
      revert hmix hlt
      cases inner <;> decide
    subst hinner
    exact (h.readable depth hdepth).first rfl _
  · have hread := reads_slot _ 6 h (by decide) (fun hno => ?_) hdepth
    · exact ⟨_, _, hread _ hstops⟩
    · have hlow : 6 ≤ left.precedence := by
        by_contra hlt
        exact hneeded ⟨hno, by omega⟩
      rwa [level_eq_precedence (by omega)]

omit [Lexis] in
/-- So do all tokens of its level. -/
lemma BinaryOp.precedence_le_strength (op : BinaryOp) :
    ∀ entry ∈ op.table, op.precedence ≤ strength entry.1 := by
  cases op <;> decide

/-- The levels of the binary operators are loops over their tables. -/
lemma level_eq_leftGrouped (hop : 5 ≤ op.precedence) :
    Grammar.level inner op.precedence =
      leftGrouped op.table (Grammar.level inner op.operandLevel) := by
  cases op <;> first | rfl | exact absurd hop (by decide)

/-- Binary operations are readable. -/
lemma readable_binary (h : Legible left) (h' : Legible right) :
    ReadableWithin (.binary op left right) := by
  intro depth hdepth
  simp only [Expr.tokens, List.length_append, List.length_cons] at hdepth
  have hleftDepth :
      (parens (left.needsParensBeside op op.precedence) left.tokens).length ≤ depth := by omega
  obtain ⟨hlt, hlow, -⟩ := op.operandLevel_bounds
  have hspine : Spine op.table (Grammar.level (assignment depth) op.operandLevel)
      op.operandLevel (Expr.binary op left right).tokens (Expr.binary op left right).read := by
    have hstrength : strength (mark op.token) < op.operandLevel := by rwa [op.strength_token]
    exact (spine_left h hleftDepth).binary (reads_right h' (by omega))
      op.table_lookup hstrength
  have hgrouped := hspine.reads op.precedence_le_strength (Nat.le_of_lt hlt)
  refine ⟨?_, ?_, ?_, ?_⟩
  · change Reads (Grammar.level (assignment depth) op.precedence) op.precedence _ _
    by_cases hop : 5 ≤ op.precedence
    · rwa [level_eq_leftGrouped hop]
    · -- the two operators of level four
      obtain rfl | rfl : op = .logicalOr ∨ op = .nullCoalescing := by
        revert hop
        cases op <;> decide
      · exact Reads.shortCircuit hgrouped
      · refine reads_coalescing (fun rest _ => ?_) hspine
        rw [Expr.tokens, List.append_assoc, List.cons_append]
        exact first_left h hleftDepth _
  · rintro _ _ _ ⟨⟩
    exact hspine
  · rintro _ _ ⟨⟩ rest
    rw [Expr.tokens, List.append_assoc, List.cons_append]
    exact first_left h hleftDepth _
  · intro hhigh
    have hle := op.precedence_le
    change 17 ≤ op.precedence at hhigh
    omega

end Binary

/-! ### The other operations -/

/-- So are unary ones. -/
lemma readable_unary {op : UnaryOp} {operand : Expr}
    (htarget : op.isUpdate = true → isTarget operand = true) (h : Legible operand) :
    ReadableWithin (.unary op operand) := by
  intro depth hdepth
  simp only [Expr.tokens, List.length_cons] at hdepth
  refine .of_reads (fun _ _ _ heq => by cases heq) (by show 15 < 17; decide) ?_
  have hslot := reads_slot (operand.bindsLooser 15) 15 h (by decide)
    (fun hneeded => le_level (le_precedence_of_bindsLooser hneeded) (by decide))
    (Nat.le_of_succ_le hdepth)
  have hlookup : prefixes.lookup op.lead = some op := by cases op <;> decide
  exact Reads.unary_cons hlookup (fun hop => isTarget_read (htarget hop)) hslot

/-- So are postfix updates. -/
lemma readable_update {op : UpdateOp} {operand : Expr} (htarget : isTarget operand = true)
    (h : Legible operand) : ReadableWithin (.update op operand) := by
  intro depth hdepth
  obtain ⟨-, htight⟩ := isTarget_tight htarget
  simp only [Expr.tokens, List.length_append] at hdepth
  refine .of_reads (fun _ _ _ heq => by cases heq) (by show 16 < 17; decide) ?_
  have hslot := reads_slot (operand.bindsLooser 17) 17 h (by decide)
    (fun hneeded => le_level (le_precedence_of_bindsLooser hneeded) (by decide))
    (Nat.le_of_add_right_le hdepth)
  have hlookup : updates.lookup (mark op.token) = some op := by cases op <;> decide
  exact Reads.postfixed_append hlookup (isTarget_read htarget) hslot

omit [Lexis] in
/-- The token of an assignment is known. -/
lemma lookup_assignToken {op : Option BinaryOp} (hop : ∀ o ∈ op, o ∉ comparisons) :
    assignments.lookup (mark (assignToken op)) = some op := by
  cases op with
  | none => decide
  | some op => cases op <;> first | decide | exact absurd (hop _ rfl) (by decide)

/-- Assignments are readable. -/
lemma readable_assign {op : Option BinaryOp} {target value : Expr}
    (hop : ∀ o ∈ op, o ∉ comparisons) (htight : isTarget target = true) (h : Legible target)
    (h' : Legible value) : ReadableWithin (.assign op target value) := by
  intro depth hdepth
  simp only [Expr.tokens, List.length_append, List.length_cons] at hdepth
  refine .of_reads (fun _ _ _ heq => by cases heq) (by show 2 < 17; decide) ?_
  have hslot : Reads (conditional (assignment depth)) 3
      (parens (target.bindsLooser 16) target.tokens) target.read := by
    refine reads_slot _ 3 h (by decide) (fun _ => ?_) (by omega)
    have hlow := (isTarget_tight htight).2
    rw [level_eq_precedence (by omega)]
    omega
  exact reads_assign (lookup_assignToken hop) (isTarget_read htight) hslot
    (reads_item h' (by omega))

/-- So are conditionals. -/
lemma readable_conditional {condition whenTrue whenFalse : Expr} (h : Legible condition)
    (h₁ : Legible whenTrue) (h₂ : Legible whenFalse) :
    ReadableWithin (.conditional condition whenTrue whenFalse) := by
  intro depth hdepth
  simp only [Expr.tokens, List.length_append, List.length_cons] at hdepth
  refine .of_reads (fun _ _ _ heq => by cases heq) (by show 3 < 17; decide) ?_
  have hslot : Reads (shortCircuit (assignment depth)) 4
      (parens (condition.bindsLooser 4) condition.tokens) condition.read :=
    reads_slot _ 4 h (by decide)
      (fun hneeded => le_level (le_precedence_of_bindsLooser hneeded) (by decide)) (by omega)
  exact (reads_conditional hslot (reads_item h₁ (by omega))
    (reads_item h₂ (by omega))).assignmentWith

/-! ### Objects, members and calls -/

/-- So are numbers. -/
lemma readable_number {d : Double} (hd : (Expr.number d).WellFormed) :
    ReadableWithin (.number d) := by
  intro depth _
  obtain ⟨-, hzero, hvalue⟩ := hd
  have hnumeral : Reads (primary (assignment depth)) 19 [Token.numeral d.abs.text]
      (.number d.abs) := by
    intro rest _
    rw [List.singleton_append, primary, hvalue]
    rfl
  cases hsign : d.isSignNegative with
  | false =>
    refine .of_primary ?_ ?_
    · rw [Expr.precedence, hsign]
      rfl
    · rw [Expr.tokens, Expr.read, if_neg (by simp [hsign]), if_neg (by simp [hsign])]
      rwa [Double.abs_of_not_isSignNegative hsign] at hnumeral ⊢
  | true =>
    have hprecedence : (Expr.number d).precedence = 15 := by
      have hne : d.isZero = false := by simpa [hsign] using hzero
      rw [Expr.precedence, hsign, hne]
      rfl
    refine .of_reads (fun _ _ _ heq => by cases heq) (by omega) ?_
    rw [level_eq_precedence (by omega), hprecedence, Expr.tokens, Expr.read, if_pos hsign,
      if_pos hsign]
    have hoperand : Reads (unary (assignment depth)) 15
        [Token.numeral d.abs.text] (.number d.abs) :=
      Reads.of_le (q := 19) (p := 15) (List.cons_ne_nil _ _) (by decide) hnumeral
    have hlookup : prefixes.lookup (mark "-") = some .negate := by decide
    exact Reads.unary_cons hlookup (fun h => by cases h) hoperand

/-- So are members. -/
lemma readable_member {target : Expr} {name : String} (h : Legible target) :
    ReadableWithin (.member target name) := by
  intro depth hdepth
  simp only [Expr.tokens, List.length_append] at hdepth
  refine .of_trails (by show 17 ≤ 18; decide) (by show 18 ≤ 18; decide)
    fun calls hcalls => ?_
  refine (trails_slot h (fun hneeded => ⟨?_, hcalls⟩) (by omega)).member name
  exact Nat.le_of_succ_le (le_precedence_of_target hneeded)

/-- So are indexed values. -/
lemma readable_index {target key : Expr} (h : Legible target) (h' : Legible key) :
    ReadableWithin (.index target key) := by
  intro depth hdepth
  simp only [Expr.tokens, List.length_append, List.length_cons] at hdepth
  refine .of_trails (by show 17 ≤ 18; decide) (by show 18 ≤ 18; decide)
    fun calls hcalls => ?_
  refine (trails_slot h (fun hneeded => ⟨?_, hcalls⟩) (by omega)).index
    (reads_whole h' (by omega))
  exact Nat.le_of_succ_le (le_precedence_of_target hneeded)

/-! ### Lists -/

omit [Lexis] in
lemma length_le_of_mem {part : List Token} {parts : List (List Token)} (h : part ∈ parts) :
    part.length ≤ ([mark ","].intercalate parts).length := by
  induction parts with
  | nil => cases h
  | cons first parts ih =>
    cases parts with
    | nil =>
      exact Nat.le_of_eq (by rw [List.mem_singleton.1 h, List.intercalate_singleton])
    | cons next parts =>
      rw [List.intercalate_cons_cons, List.length_append, List.length_append]
      rcases List.mem_cons.1 h with rfl | h
      · omega
      · have hle := ih h
        omega

/-- The items of the list are read one by one. -/
def ItemsReadable (items : List Expr) : Prop :=
  ∀ depth, (∀ part ∈ itemTokens items, part.length < depth) →
    List.Forall₂ (Reads (assignment depth) 2) (itemTokens items) (readAll items)

/-- The properties are read one by one. -/
def PropertiesReadable (properties : List Property) : Prop :=
  ∀ depth, (∀ part ∈ propertyTokens properties, part.length < depth) →
    List.Forall₂ (Reads (property (assignment depth)) 2) (propertyTokens properties)
      (readProperties properties)

/-- Items open as expressions. -/
lemma opens_items {items : List Expr} (h : AllWellFormed items) :
    ∀ part ∈ itemTokens items, Opens part := by
  induction items with
  | nil => exact fun part hpart => by cases hpart
  | cons e items ih =>
    intro part hpart
    rcases List.mem_cons.1 hpart with rfl | hpart
    · have hleads : Leads False (parens (e.bindsLooser 2) e.tokens) :=
        (leads_tokens e h.1).parens fun _ hfalse => hfalse.elim
      obtain ⟨t, ts, heq, ht, -⟩ := hleads
      exact ⟨t, ts, heq, ht⟩
    · exact ih h.2 part hpart

omit [Lexis] in
/-- Properties open as keys. -/
lemma opens_properties (properties : List Property) :
    ∀ part ∈ propertyTokens properties, Opens part := by
  induction properties with
  | nil => exact fun part hpart => by cases hpart
  | cons property properties ih =>
    obtain ⟨name, value⟩ := property
    intro part hpart
    rcases List.mem_cons.1 hpart with rfl | hpart
    · refine ⟨keyToken name, _, rfl, ?_⟩
      unfold keyToken
      split_ifs <;> simp [closers]
    · exact ih part hpart

omit [Lexis] in
lemma length_readAll (items : List Expr) : (readAll items).length = items.length := by
  induction items with
  | nil => rfl
  | cons e items ih => rw [readAll, List.length_cons, List.length_cons, ih]

section Lists

variable {items : List Expr}

/-- A list of items is read up to its end. -/
lemma list_items (hitems : AllWellFormed items) (h : ItemsReadable items)
    {close : Token} (hclose : close ∈ closers)
    (hdepth : ([mark ","].intercalate (itemTokens items)).length < depth) (rest : List Token) :
    listUpTo (assignment depth) close
      ([mark ","].intercalate (itemTokens items) ++ close :: rest) =
        some (readAll items, rest) := by
  refine listUpTo_append (h depth fun part hpart => ?_) (opens_items hitems) hclose rest
  exact Nat.lt_of_le_of_lt (length_le_of_mem hpart) hdepth

/-- Calls are readable. -/
lemma readable_call {target : Expr} (hitems : AllWellFormed items) (h : Legible target)
    (h' : ItemsReadable items) : ReadableWithin (.call target items) := by
  intro depth hdepth
  simp only [Expr.tokens, List.length_append, List.length_cons] at hdepth
  refine .of_trails (by show 17 ≤ 18; decide) (by show 18 ≤ 18; decide)
    fun calls hcalls => ?_
  cases calls with
  | false => exact absurd (hcalls rfl) (by show ¬ true = false; decide)
  | true =>
    refine (trails_slot h (fun hneeded => ⟨?_, fun h => by cases h⟩) (by omega)).call
      (list_items hitems h' (by decide) (by omega))
    exact Nat.le_of_succ_le (le_precedence_of_target hneeded)

/-- So are new objects. -/
lemma readable_new {constructor : Expr} (hitems : AllWellFormed items) (h : Legible constructor)
    (h' : ItemsReadable items) : ReadableWithin (.new constructor items) := by
  intro depth hdepth
  simp only [Expr.tokens, List.length_append, List.length_cons] at hdepth
  refine .of_trails (by show 17 ≤ 17; decide) (by show 17 ≤ 18; decide) fun calls _ => ?_
  refine Trails.of_head (head_new (trails_slot h (fun hneeded => ?_) (by omega))
    (list_items hitems h' (by decide) (by omega)))
  obtain ⟨hcall, hbinds⟩ := Bool.or_eq_false_iff.1 hneeded
  exact ⟨Nat.le_of_succ_le (le_precedence_of_bindsLooser hbinds), fun _ => hcall⟩

/-- So are arrays. -/
lemma readable_array (hitems : AllWellFormed items) (h : ItemsReadable items) :
    ReadableWithin (.array items) := by
  intro depth hdepth
  simp only [Expr.tokens, List.length_append, List.length_cons] at hdepth
  exact .of_primary rfl (reads_array (list_items hitems h (by decide) (by omega)))

/-- So are objects. -/
lemma readable_object {properties : List Property} (h : PropertiesReadable properties) :
    ReadableWithin (.object properties) := by
  intro depth hdepth
  simp only [Expr.tokens, List.length_append, List.length_cons] at hdepth
  refine .of_primary rfl (reads_object ?_)
  refine listUpTo_append (h depth fun part hpart => ?_) (opens_properties properties) (by decide)
  have hle := length_le_of_mem hpart
  omega

/-- So are sequences. -/
lemma readable_comma (hlength : 2 ≤ items.length) (hitems : AllWellFormed items)
    (h : ItemsReadable items) : ReadableWithin (.comma items) := by
  intro depth hdepth
  refine .of_reads (fun _ _ _ heq => by cases heq) (by show 1 < 17; decide) ?_
  have hread := h (depth + 1) fun part hpart =>
    Nat.lt_succ_of_le (Nat.le_trans (length_le_of_mem hpart) hdepth)
  refine reads_comma hread ?_ ?_
  · intro part hpart
    obtain ⟨t, ts, rfl, -⟩ := opens_items hitems part hpart
    exact List.cons_ne_nil _ _
  · rwa [length_readAll]

end Lists

end Cases

/-! ## All expressions -/

section Main

variable [Lexis]

omit [Lexis] in
/-- What is not reserved is no constant. -/
lemma lookup_constants {name : String} (hname : name ∉ reserved) :
    constants.lookup name = none := by
  cases hlookup : constants.lookup name with
  | none => rfl
  | some e =>
    obtain ⟨before, behind, heq, -⟩ := List.lookup_eq_some_iff.1 hlookup
    have hmem : name ∈ constants.map Prod.fst := by
      rw [heq]
      simp
    have hall : ∀ name ∈ constants.map Prod.fst, name ∈ reserved := by decide
    exact absurd (hall name hmem) hname

/-- So is what is one word. -/
lemma readable_word {e : Expr} (hprecedence : e.precedence = 20) {name : String}
    (htokens : e.tokens = [word name])
    (h : ∀ inner rest, primary inner (word name :: rest) = some (e.read, rest)) :
    ReadableWithin e := by
  intro depth _
  refine .of_primary hprecedence fun rest _ => ?_
  rw [htokens, List.singleton_append, h]

mutual

/-- Every well-formed expression is read by the level of its outermost operator. -/
theorem legible_expr : ∀ e : Expr, e.WellFormed → Legible e
  | .null, h | .this, h | .boolean true, h | .boolean false, h =>
    ⟨h, readable_word rfl rfl fun _ _ => rfl⟩
  | .number _, h => ⟨h, readable_number h⟩
  | .string _, h => ⟨h, fun _ _ => Readable.of_primary rfl fun _ _ => rfl⟩
  | .ident name, h => by
    refine ⟨h, readable_word rfl rfl fun inner rest => ?_⟩
    rw [primary, lookup_constants h.2]
    exact if_neg h.2
  | .member target _, h => ⟨h, readable_member (legible_expr target h.1)⟩
  | .index target key, h => ⟨h, readable_index (legible_expr target h.1) (legible_expr key h.2)⟩
  | .call target arguments, h =>
    ⟨h, readable_call h.2 (legible_expr target h.1) (readable_items arguments h.2)⟩
  | .new constructor arguments, h =>
    ⟨h, readable_new h.2 (legible_expr constructor h.1) (readable_items arguments h.2)⟩
  | .object properties, h => ⟨h, readable_object (readable_properties properties h)⟩
  | .array items, h => ⟨h, readable_array h (readable_items items h)⟩
  | .binary _ left right, h =>
    ⟨h, readable_binary (legible_expr left h.1) (legible_expr right h.2)⟩
  | .unary _ operand, h => ⟨h, readable_unary h.2 (legible_expr operand h.1)⟩
  | .update _ operand, h => ⟨h, readable_update h.2 (legible_expr operand h.1)⟩
  | .assign _ target value, h =>
    ⟨h, readable_assign h.2.2.2 h.2.1 (legible_expr target h.1) (legible_expr value h.2.2.1)⟩
  | .conditional condition whenTrue whenFalse, h =>
    ⟨h, readable_conditional (legible_expr condition h.1) (legible_expr whenTrue h.2.1)
      (legible_expr whenFalse h.2.2)⟩
  | .comma items, h => ⟨h, readable_comma h.1 h.2 (readable_items items h.2)⟩

/-- The items of a list are read one by one. -/
theorem readable_items : ∀ items : List Expr, AllWellFormed items → ItemsReadable items
  | [], _ => fun _ _ => .nil
  | e :: rest, h => fun depth hdepth => by
    obtain ⟨hfirst, hrest⟩ := List.forall_mem_cons.1 hdepth
    exact .cons (reads_item (legible_expr e h.1) hfirst) (readable_items rest h.2 depth hrest)

/-- The properties of an object are read one by one. -/
theorem readable_properties : ∀ properties : List Property,
    PropertiesWellFormed properties → PropertiesReadable properties
  | [], _ => fun _ _ => .nil
  | .mk name value :: rest, h => fun depth hdepth => by
    obtain ⟨hfirst, hrest⟩ := List.forall_mem_cons.1 hdepth
    simp only [List.length_cons] at hfirst
    have hvalue : Reads (assignment depth) 2 _ value.read :=
      reads_item (legible_expr value h.2.1) (by omega)
    have hkey : keyToken name = word name ∨ keyToken name = literal name := by
      unfold keyToken
      split_ifs
      · exact .inl rfl
      · exact .inr rfl
    exact .cons (reads_property hkey hvalue) (readable_properties rest h.2.2 depth hrest)

end

end Main

/-- The text of a well-formed expression is read as the expression, with numbers that have a sign
read as negations. -/
theorem parse_exprText [Lexis] (layout : Layout) {e : Expr} (he : e.WellFormed) :
    parse (layout.exprText e) = some e.read := by
  have hlex : lex (layout.exprText e).toList = some e.tokens := (spells_expr layout 0 e he).lex_eq
  have hread := reads_whole (legible_expr e he) (Nat.lt_succ_self _) [] (stops_nil 1)
  rw [List.append_nil] at hread
  rw [parse, hlex]
  simp only [Option.bind_eq_bind, Option.bind_some]
  rw [hread]
  rfl

/-- `(a ?? - -5) || new (f().g)((x += "\"", { k: y, "²": null }))` -/
def sampleExpr : Expr :=
  .binary .logicalOr
    (.binary .nullCoalescing (.ident "a") (.unary .negate (.number (Double.ofInt (-5)))))
    (.new (.member (.call (.ident "f") []) "g")
      [.comma [.assign (some .add) (.ident "x") (.string "\""),
        .object [.mk "k" (.ident "y"), .mk "²" .null]]])

/-- Names of the first 128 characters, and the only numeral of the sample. -/
@[reducible] def sampleLexis : Lexis :=
  .ascii fun text => if text = "5" then some (Double.ofInt 5) else none

attribute [local instance] sampleLexis in
theorem parse_exprText_sampleExpr :
    sampleExpr.WellFormed ∧ parse (Layout.exprText {} sampleExpr) = some sampleExpr.read := by
  have hwellFormed : sampleExpr.WellFormed := by decide +kernel
  exact ⟨hwellFormed, parse_exprText {} hwellFormed⟩

/-- Where `²` belongs to no name, the text of an object with the key `x²` is refused: the printer
takes the key for a name and leaves it without quotes.  An identifier that is a word with a meaning
of its own is read as this meaning. -/
theorem exprText_not_read_back :
    (∀ lexis : Lexis, lexis.opens '²' = false → lexis.continues '²' = false →
      @parse lexis (Layout.exprText {} (.object [.mk "x²" .null])) = none) ∧
    ∀ lexis : Lexis, @parse lexis (Layout.exprText {} (.ident "null")) = some .null := by
  refine ⟨fun lexis hopens hcontinues => ?_, fun lexis => ?_⟩
  · have htext : (Layout.exprText {} (.object [.mk "x²" .null])).toList =
        (mark "\x7b").chars ++ ([' '] ++ ((word "x").chars ++ '²' :: ": null \x7d".toList)) := by
      decide +kernel
    have hscan : scan ('²' :: ": null \x7d".toList) = none := by
      rw [scan, if_neg (by rw [hopens]; decide), if_neg (by decide), if_neg (by decide)]
      decide
    have hbrace : (mark "\x7b").Valid := (by decide : "\x7b" ∈ marks)
    have hword : (word "x").Valid := Lexis.isName_of_ascii (by decide)
    rw [parse, htext, lex_token hbrace fun c hc => ?brace, lex_space (by decide),
      lex_token hword fun c hc => ?word, lex, hscan]
    case brace =>
      cases hc
      exact hbrace.stopsBefore_closing (by decide)
    case word =>
      cases hc
      simp only [stopsBefore, hcontinues, Bool.not_false]
    rfl
  · have hlex : lex (Layout.exprText {} (.ident "null")).toList = some [word "null"] :=
      (spells_expr {} 0 .null trivial).lex_eq
    rw [parse, hlex]
    rfl

end ScriptCompiler.Script
