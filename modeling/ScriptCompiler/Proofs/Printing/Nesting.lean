import ScriptCompiler.Proofs.Printing.ReadBack
import ScriptCompiler.Proofs.Printing.Statements

/-!
# Printed statements and the nesting that is read

The printer writes no braces around the branches of an `if`, so an `else` may come to stand behind
an `if` that is still open.  `Stmt.attached` is the statement with each `else` at the nearest open
`if`.  It has the same tokens, and in it no `else` can be taken by another `if`, so it is what the
text of the statement is read as.

So a statement reads back exactly if its elses are where they are read already: no branch with an
`else` has an open statement in front of it.  One other thing can go wrong: an expression that opens
with `let [` is refused as a statement, since only a declaration may open so.
-/

namespace ScriptCompiler.Script

open Token
open Grammar

/-! ## Open branches -/

/-- Whether an `else` behind the statement would belong to an `if` inside it. -/
def Stmt.isOpen : Stmt → Bool
  | .branch _ _ none => true
  | .branch _ _ (some elseBranch) => elseBranch.isOpen
  | .whileLoop _ body => body.isOpen
  | _ => false

/-- The statement with an `else` at its nearest open `if`. -/
def Stmt.withElse : Stmt → Stmt → Stmt
  | .branch condition thenBranch none, other =>
    if thenBranch.isOpen then .branch condition (thenBranch.withElse other) none
    else .branch condition thenBranch (some other)
  | .branch condition thenBranch (some elseBranch), other =>
    .branch condition thenBranch (some (elseBranch.withElse other))
  | .whileLoop condition body, other => .whileLoop condition (body.withElse other)
  | s, _ => s

mutual

/-- The statement with each `else` at the nearest open `if`. -/
def Stmt.attached : Stmt → Stmt
  | .branch condition thenBranch none => .branch condition thenBranch.attached none
  | .branch condition thenBranch (some elseBranch) =>
    if thenBranch.attached.isOpen then
      .branch condition (thenBranch.attached.withElse elseBranch.attached) none
    else .branch condition thenBranch.attached (some elseBranch.attached)
  | .block body => .block (attachedBody body)
  | .whileLoop condition body => .whileLoop condition body.attached
  | .doWhile body condition => .doWhile body.attached condition
  | .comment text => .comment text
  | .declare bindings => .declare bindings
  | .expr value => .expr value
  | .return value => .return value
  | .break => .break
  | .continue => .continue
  | .throw value => .throw value
  | .empty => .empty

/-- The statements of a block with each `else` at the nearest open `if`. -/
def attachedBody : List Stmt → List Stmt
  | [] => []
  | s :: rest => s.attached :: attachedBody rest

end

mutual

/-- No branch with an `else` has an open statement in front of it. -/
def Stmt.ElseAttached : Stmt → Prop
  | .branch _ thenBranch none => thenBranch.ElseAttached
  | .branch _ thenBranch (some elseBranch) =>
    thenBranch.isOpen = false ∧ thenBranch.ElseAttached ∧ elseBranch.ElseAttached
  | .block body => BodyElseAttached body
  | .whileLoop _ body | .doWhile body _ => body.ElseAttached
  | _ => True

/-- The same for all statements of a block. -/
def BodyElseAttached : List Stmt → Prop
  | [] => True
  | s :: rest => s.ElseAttached ∧ BodyElseAttached rest

end

mutual

instance Stmt.decidableElseAttached : (s : Stmt) → Decidable s.ElseAttached
  | .branch _ body none | .whileLoop _ body | .doWhile body _ => body.decidableElseAttached
  | .branch _ thenBranch (some elseBranch) =>
    @instDecidableAnd _ _ _ (@instDecidableAnd _ _ thenBranch.decidableElseAttached
      elseBranch.decidableElseAttached)
  | .block body => decidableBodyElseAttached body
  | .comment _ | .declare _ | .expr _ | .return _ | .break | .continue | .throw _ | .empty =>
    isTrue trivial

instance decidableBodyElseAttached : (body : List Stmt) → Decidable (BodyElseAttached body)
  | [] => isTrue trivial
  | s :: rest => @instDecidableAnd _ _ s.decidableElseAttached (decidableBodyElseAttached rest)

end

mutual

/-- No expression in the statement is a statement that opens with `let [`, as only a declaration
may. -/
def Stmt.letFree : Stmt → Bool
  | .expr value =>
    decide ((parens value.opensLikeStatement value.tokens).take 2 ≠ [word "let", mark "["])
  | .branch _ thenBranch none => thenBranch.letFree
  | .branch _ thenBranch (some elseBranch) => thenBranch.letFree && elseBranch.letFree
  | .block body => letFreeBody body
  | .whileLoop _ body | .doWhile body _ => body.letFree
  | _ => true

/-- The same for all statements of a block. -/
def letFreeBody : List Stmt → Bool
  | [] => true
  | s :: rest => s.letFree && letFreeBody rest

end

/-! ## Moving an `else` -/

/-- An `else` at the nearest open `if` stands behind the statement. -/
lemma tokens_withElse (other : Stmt) : ∀ s : Stmt, s.isOpen = true →
    (s.withElse other).tokens = s.tokens ++ word "else" :: other.tokens
  | .branch condition thenBranch none, _ => by
    rw [Stmt.withElse]
    split_ifs with hopen
    · rw [Stmt.tokens, Stmt.tokens, tokens_withElse other thenBranch hopen]
      simp
    · rw [Stmt.tokens, Stmt.tokens]
  | .branch _ _ (some body), h | .whileLoop _ body, h => by
    rw [Stmt.withElse, Stmt.tokens, Stmt.tokens, tokens_withElse other body h]
    simp

mutual

/-- The statement is written as before. -/
theorem tokens_attached : ∀ s : Stmt, s.attached.tokens = s.tokens
  | .branch condition thenBranch (some elseBranch) => by
    rw [Stmt.attached]
    split_ifs with hopen
    · rw [Stmt.tokens, Stmt.tokens, tokens_withElse _ _ hopen, tokens_attached thenBranch,
        tokens_attached elseBranch]
      simp
    · rw [Stmt.tokens, Stmt.tokens, tokens_attached thenBranch, tokens_attached elseBranch]
  | .block body => by
    rw [Stmt.attached, Stmt.tokens, Stmt.tokens, bodyTokens_attachedBody body]
  | .branch _ body none | .whileLoop _ body | .doWhile body _ => by
    rw [Stmt.attached, Stmt.tokens, Stmt.tokens, tokens_attached body]
  | .comment _ | .declare _ | .expr _ | .return _ | .break | .continue | .throw _ | .empty => by
    rw [Stmt.attached]

/-- Attaching keeps the tokens of a block. -/
theorem bodyTokens_attachedBody : ∀ body : List Stmt,
    bodyTokens (attachedBody body) = bodyTokens body
  | [] => rfl
  | s :: rest => by
    rw [attachedBody, bodyTokens, bodyTokens, tokens_attached s, bodyTokens_attachedBody rest]

end

/-- An `else` at the nearest open `if` is attached. -/
lemma elseAttached_withElse {other : Stmt} (hother : other.ElseAttached) : ∀ s : Stmt,
    s.isOpen = true → s.ElseAttached → (s.withElse other).ElseAttached
  | .branch condition thenBranch none, _, hs => by
    rw [Stmt.withElse]
    rw [Stmt.ElseAttached] at hs
    split_ifs with hopen
    · rw [Stmt.ElseAttached]
      exact elseAttached_withElse hother thenBranch hopen hs
    · rw [Stmt.ElseAttached]
      exact ⟨Bool.eq_false_iff.2 hopen, hs, hother⟩
  | .branch condition thenBranch (some elseBranch), h, hs => by
    rw [Stmt.ElseAttached] at hs
    obtain ⟨hclosed, hthen, helse⟩ := hs
    rw [Stmt.withElse, Stmt.ElseAttached]
    exact ⟨hclosed, hthen, elseAttached_withElse hother elseBranch h helse⟩
  | .whileLoop condition body, h, hs => by
    rw [Stmt.ElseAttached] at hs
    rw [Stmt.withElse, Stmt.ElseAttached]
    exact elseAttached_withElse hother body h hs

mutual

/-- Attaching attaches every `else`. -/
theorem elseAttached_attached : ∀ s : Stmt, s.attached.ElseAttached
  | .branch condition thenBranch (some elseBranch) => by
    have hthen := elseAttached_attached thenBranch
    have helse := elseAttached_attached elseBranch
    rw [Stmt.attached]
    split_ifs with hopen
    · rw [Stmt.ElseAttached]
      exact elseAttached_withElse helse _ hopen hthen
    · rw [Stmt.ElseAttached]
      exact ⟨Bool.eq_false_iff.2 hopen, hthen, helse⟩
  | .block body => by
    rw [Stmt.attached, Stmt.ElseAttached]
    exact bodyElseAttached_attachedBody body
  | .branch _ body none | .whileLoop _ body | .doWhile body _ => by
    rw [Stmt.attached, Stmt.ElseAttached]
    exact elseAttached_attached body
  | .comment _ | .declare _ | .expr _ | .return _ | .break | .continue | .throw _ | .empty => by
    rw [Stmt.attached]
    trivial

/-- It does so in blocks. -/
theorem bodyElseAttached_attachedBody : ∀ body : List Stmt, BodyElseAttached (attachedBody body)
  | [] => trivial
  | s :: rest => ⟨elseAttached_attached s, bodyElseAttached_attachedBody rest⟩

end

mutual

/-- Where each `else` is attached, nothing moves. -/
theorem attached_eq_self : ∀ s : Stmt, s.ElseAttached → s.attached = s
  | .branch condition thenBranch (some elseBranch), h => by
    rw [Stmt.ElseAttached] at h
    obtain ⟨hclosed, hthen, helse⟩ := h
    rw [Stmt.attached, attached_eq_self thenBranch hthen, attached_eq_self elseBranch helse,
      hclosed]
    rfl
  | .block body, h => by rw [Stmt.attached, attachedBody_eq_self body h]
  | .branch _ body none, h | .whileLoop _ body, h | .doWhile body _, h => by
    rw [Stmt.attached, attached_eq_self body h]
  | .comment _, _ | .declare _, _ | .expr _, _ | .return _, _ | .break, _ | .continue, _
  | .throw _, _ | .empty, _ => by rw [Stmt.attached]

/-- An attached block stays as it is. -/
theorem attachedBody_eq_self : ∀ body : List Stmt, BodyElseAttached body → attachedBody body = body
  | [], _ => rfl
  | s :: rest, h => by rw [attachedBody, attached_eq_self s h.1, attachedBody_eq_self rest h.2]

end

mutual

/-- A statement that is read as itself has its elses attached. -/
theorem elseAttached_of_read_eq : ∀ s : Stmt, s.attached.read = s.read → s.ElseAttached
  | .branch condition thenBranch (some elseBranch), h => by
    rw [Stmt.attached] at h
    split_ifs at h with hopen
    · rw [Stmt.read, Stmt.read] at h
      injection h with _ _ helse
      cases helse
    · rw [Stmt.read, Stmt.read] at h
      injection h with _ hthen helse
      have hthen := elseAttached_of_read_eq thenBranch hthen
      rw [attached_eq_self thenBranch hthen, Bool.not_eq_true] at hopen
      exact ⟨hopen, hthen, elseAttached_of_read_eq elseBranch (Option.some.inj helse)⟩
  | .block body, h => by
    rw [Stmt.attached, Stmt.read, Stmt.read] at h
    injection h with hbody
    exact bodyElseAttached_of_read_eq body hbody
  | .branch _ body none, h | .whileLoop _ body, h => by
    rw [Stmt.attached, Stmt.read, Stmt.read] at h
    injection h with _ hbody
    exact elseAttached_of_read_eq body hbody
  | .doWhile body condition, h => by
    rw [Stmt.attached, Stmt.read, Stmt.read] at h
    injection h with hbody
    exact elseAttached_of_read_eq body hbody
  | .comment _, _ | .declare _, _ | .expr _, _ | .return _, _ | .break, _ | .continue, _
  | .throw _, _ | .empty, _ => trivial

theorem bodyElseAttached_of_read_eq : ∀ body : List Stmt,
    readBody (attachedBody body) = readBody body → BodyElseAttached body
  | [], _ => trivial
  | s :: rest, h => by
    rw [attachedBody, readBody, readBody] at h
    injection h with hfirst hrest
    exact ⟨elseAttached_of_read_eq s hfirst, bodyElseAttached_of_read_eq rest hrest⟩

end

/-- An `else` at the nearest open `if` keeps the statement well-formed. -/
lemma wellFormed_withElse [Lexis] {other : Stmt}
    (hother : other.WellFormed) : ∀ s : Stmt, s.WellFormed →
      (s.withElse other).WellFormed
  | .branch condition thenBranch none, hs => by
    rw [Stmt.withElse]
    split_ifs
    · exact ⟨hs.1, wellFormed_withElse hother thenBranch hs.2⟩
    · exact ⟨hs.1, hs.2, hother⟩
  | .branch condition thenBranch (some elseBranch), hs =>
    ⟨hs.1, hs.2.1, wellFormed_withElse hother elseBranch hs.2.2⟩
  | .whileLoop condition body, hs => ⟨hs.1, wellFormed_withElse hother body hs.2⟩
  | .doWhile _ _, hs | .block _, hs | .declare _, hs | .expr _, hs | .return _, hs | .throw _, hs =>
    hs
  | .break, _ | .continue, _ | .empty, _ => trivial

mutual

/-- Attaching keeps statements well formed. -/
theorem wellFormed_attached [Lexis] : ∀ s : Stmt,
    s.WellFormed → s.attached.WellFormed
  | .branch condition thenBranch (some elseBranch), h => by
    have hthen := wellFormed_attached thenBranch h.2.1
    have helse := wellFormed_attached elseBranch h.2.2
    rw [Stmt.attached]
    split_ifs
    · exact ⟨h.1, wellFormed_withElse helse _ hthen⟩
    · exact ⟨h.1, hthen, helse⟩
  | .block body, h => bodyWellFormed_attachedBody body h
  | .branch _ body none, h | .whileLoop _ body, h | .doWhile body _, h =>
    ⟨h.1, wellFormed_attached body h.2⟩
  | .declare _, h | .expr _, h | .return _, h | .throw _, h => h
  | .break, _ | .continue, _ | .empty, _ => trivial

theorem bodyWellFormed_attachedBody [Lexis] : ∀ body : List Stmt,
    BodyWellFormed body → BodyWellFormed (attachedBody body)
  | [], _ => trivial
  | s :: rest, h => ⟨wellFormed_attached s h.1, bodyWellFormed_attachedBody rest h.2⟩

end

/-- An `else` at the nearest open `if` is read along with the statement. -/
lemma letFree_withElse (other : Stmt) : ∀ s : Stmt, s.isOpen = true →
    (s.withElse other).letFree = (s.letFree && other.letFree)
  | .branch condition thenBranch none, _ => by
    rw [Stmt.withElse]
    split_ifs with hopen
    · rw [Stmt.letFree, Stmt.letFree, letFree_withElse other thenBranch hopen]
    · rw [Stmt.letFree, Stmt.letFree]
  | .branch condition thenBranch (some elseBranch), h => by
    rw [Stmt.withElse, Stmt.letFree, Stmt.letFree, letFree_withElse other elseBranch h,
      Bool.and_assoc]
  | .whileLoop condition body, h => by
    rw [Stmt.withElse, Stmt.letFree, Stmt.letFree, letFree_withElse other body h]

mutual

/-- It adds no `let`. -/
theorem letFree_attached : ∀ s : Stmt, s.attached.letFree = s.letFree
  | .branch condition thenBranch (some elseBranch) => by
    rw [Stmt.attached, Stmt.letFree, ← letFree_attached thenBranch, ← letFree_attached elseBranch]
    split_ifs with hopen
    · rw [Stmt.letFree, letFree_withElse _ _ hopen]
    · rw [Stmt.letFree]
  | .block body => by
    rw [Stmt.attached, Stmt.letFree, Stmt.letFree, letFreeBody_attachedBody body]
  | .branch _ body none | .whileLoop _ body | .doWhile body _ => by
    rw [Stmt.attached, Stmt.letFree, Stmt.letFree, letFree_attached body]
  | .comment _ | .declare _ | .expr _ | .return _ | .break | .continue | .throw _ | .empty => by
    rw [Stmt.attached]

theorem letFreeBody_attachedBody : ∀ body : List Stmt,
    letFreeBody (attachedBody body) = letFreeBody body
  | [] => rfl
  | s :: rest => by
    rw [attachedBody, letFreeBody, letFreeBody, letFree_attached s, letFreeBody_attachedBody rest]

end

/-! ## First tokens -/

/-- The tokens that open a statement other than an expression, and those that end one. -/
def starters : List Token :=
  [mark "\x7b", mark "\x7d", mark ";", word "var", word "if", word "while", word "do",
   word "return", word "break", word "continue", word "throw", word "else"]

/-- The tokens open an expression: with a brace only if `braced`, and with no other token that has a
meaning of its own in front of a statement. -/
def Begins (braced : Bool) (tokens : List Token) : Prop :=
  ∃ t ts, tokens = t :: ts ∧ (t ∈ starters → t = mark "\x7b" ∧ braced = true)

section Begins

variable {braced : Bool} {tokens more : List Token}

/-- A token that starts no statement begins an expression. -/
lemma begins_cons {t : Token} (ht : t ∉ starters) : Begins braced (t :: more) :=
  ⟨t, more, rfl, fun h => absurd h ht⟩

lemma Begins.append (h : Begins braced tokens) : Begins braced (tokens ++ more) := by
  obtain ⟨t, ts, rfl, ht⟩ := h
  exact ⟨t, ts ++ more, rfl, ht⟩

/-- So does a parenthesis. -/
lemma Begins.parens (h : Begins braced tokens) (needed : Bool) :
    Begins braced (parens needed tokens) := by
  cases needed with
  | true => exact begins_cons (by decide)
  | false => exact h

/-- Behind an opening parenthesis, or without a brace in front, the first token is none of those
with a meaning of their own. -/
lemma Begins.exists_not_mem_starters (h : Begins braced tokens) :
    ∃ t ts, Script.parens braced tokens = t :: ts ∧ t ∉ starters := by
  cases braced with
  | true => exact ⟨mark "(", tokens ++ [mark ")"], rfl, by decide⟩
  | false =>
    obtain ⟨t, ts, rfl, ht⟩ := h
    exact ⟨t, ts, rfl, fun hmem => by cases (ht hmem).2⟩

end Begins

/-- Only reserved words start statements. -/
lemma word_not_mem_starters {name : String} (hname : name ∉ reserved) : word name ∉ starters := by
  intro hmem
  have hwords : name ∈ ["var", "if", "while", "do", "return", "break", "continue", "throw",
      "else"] := by
    simpa [starters] using hmem
  have hall : ∀ name ∈ ["var", "if", "while", "do", "return", "break", "continue", "throw",
      "else"], name ∈ reserved := by
    decide
  exact hname (hall name hwords)

lemma isFunction_eq_false [Lexis] {e : Expr}
    (he : e.WellFormed) : e.isFunction = false := by
  cases e <;> first | rfl | cases he

/-- The printer knows whether an expression opens with a brace. -/
lemma begins_tokens [Lexis] : ∀ e : Expr, e.WellFormed →
    Begins e.opensLikeStatement e.tokens
  | .null, _ | .this, _ => begins_cons (by decide)
  | .boolean value, _ => by cases value <;> exact begins_cons (by decide)
  | .number d, _ => by
    rw [Expr.tokens]
    split_ifs
    · exact begins_cons (by decide)
    · exact begins_cons (by simp [starters])
  | .string _, _ => begins_cons (by simp [starters])
  | .ident _, h => begins_cons (word_not_mem_starters h.2)
  | .member target _, h => by
    have htarget := (begins_tokens target h.1).parens target.needsParensAsTarget
    rw [Expr.tokens, Expr.opensLikeStatement, isFunction_eq_false h.1]
    exact htarget.append
  | .index target _, h | .call target _, h => by
    have htarget := (begins_tokens target h.1).parens target.needsParensAsTarget
    rw [Expr.tokens, Expr.opensLikeStatement, isFunction_eq_false h.1]
    exact htarget.append.append
  | .new _ _, _ | .array _, _ => begins_cons (by decide)
  | .object _, _ => ⟨_, _, rfl, fun _ => ⟨rfl, rfl⟩⟩
  | .binary op left _, h =>
    ((begins_tokens left h.1).parens (left.needsParensBeside op op.precedence)).append
  | .unary op _, _ => begins_cons (by cases op <;> decide)
  | .update _ operand, h =>
    ((begins_tokens operand h.1).parens (operand.bindsLooser 17)).append
  | .assign _ target _, h =>
    ((begins_tokens target h.1).parens (target.bindsLooser 16)).append
  | .conditional condition _ _, h =>
    ((begins_tokens condition h.1).parens (condition.bindsLooser 4)).append.append
  | .comma (first :: rest), h => by
    have hfirst := (begins_tokens first h.2.1).parens (first.bindsLooser 2)
    rw [Expr.tokens, itemTokens, Expr.opensLikeStatement]
    cases itemTokens rest with
    | nil => rwa [List.intercalate_singleton]
    | cons next others =>
      rw [List.intercalate_cons_cons]
      exact hfirst.append.append
  | .comma [], h => absurd h.1 (by decide)

/-- No statement opens with `else` or a closing brace. -/
lemma exists_tokens_eq_cons [Lexis] {s : Stmt}
    (hs : s.WellFormed) :
    ∃ t ts, s.tokens = t :: ts ∧ t ∉ [word "else", mark "\x7d"] := by
  cases s with
  | comment text => cases hs
  | expr value =>
    obtain ⟨t, ts, heq, ht⟩ := (begins_tokens value hs).exists_not_mem_starters
    refine ⟨t, ts ++ [mark ";"], by rw [Stmt.tokens, heq]; rfl, fun hmem => ht ?_⟩
    have hall : ∀ t ∈ [word "else", mark "\x7d"], t ∈ starters := by decide
    exact hall t hmem
  | «return» value => cases value <;> exact ⟨_, _, rfl, by decide⟩
  | branch condition thenBranch elseBranch => cases elseBranch <;> exact ⟨_, _, rfl, by decide⟩
  | _ => exact ⟨_, _, rfl, by decide⟩

/-! ## Reading the parts of statements -/

section Parts

variable [Lexis]

omit [Lexis] in
lemma expect_of_ne {t u : Token} (h : u ≠ t) (rest : List Token) : expect t (u :: rest) = none :=
  if_neg h

/-- An expression, possibly in parentheses, is read as a whole. -/
lemma whole_parens (needed : Bool) {e : Expr} (he : e.WellFormed) {rest : List Token}
    (hrest : Stops 1 rest) :
    whole (parens needed e.tokens ++ rest) = some (e.read, rest) := by
  have hone : 1 ≤ e.level := le_level e.one_le_precedence (by decide)
  have hlength : (parens needed e.tokens).length ≤ (parens needed e.tokens ++ rest).length := by
    rw [List.length_append]
    exact Nat.le_add_right _ _
  exact reads_slot needed 1 (legible_expr e he) (by decide) (fun _ => hone) hlength rest hrest

/-- A whole expression is read up to a stop. -/
lemma whole_tokens {e : Expr} (he : e.WellFormed) {rest : List Token}
    (hrest : Stops 1 rest) : whole (e.tokens ++ rest) = some (e.read, rest) :=
  whole_parens false he hrest

/-- A condition is read in its parentheses. -/
lemma enclosed_tokens {e : Expr} (he : e.WellFormed) (rest : List Token) :
    enclosed (conditionTokens e ++ rest) = some (e.read, rest) := by
  have hread := whole_tokens he (stops_cons (t := mark ")") (by decide) rest)
  have htokens : conditionTokens e ++ rest = mark "(" :: (e.tokens ++ mark ")" :: rest) := by
    simp [conditionTokens]
  rw [htokens, enclosed, expect_self]
  simp only [Option.bind_eq_bind, Option.bind_some]
  rw [hread]
  simp only [Option.bind_some]
  rw [expect_self]
  rfl

omit [Lexis] in
/-- A semicolon ends what is read. -/
lemma ended_of_eq {α : Type} {parser : Parser α} {tokens rest : List Token} {a : α}
    (h : parser tokens = some (a, mark ";" :: rest)) : ended parser tokens = some (a, rest) := by
  rw [ended, h]
  simp only [Option.bind_eq_bind, Option.bind_some]
  rw [expect_self]
  rfl

omit [Lexis] in
/-- The expression of a statement ends at its semicolon. -/
lemma stops_semicolon (rest : List Token) : Stops 1 (mark ";" :: rest) :=
  stops_cons (by decide) rest

/-- Bindings are read one by one. -/
lemma reads_bindings {bindings : List Binding} (h : BindingsWellFormed bindings) :
    List.Forall₂ (Reads binding 2) (bindingTokens bindings) (readBindings bindings) := by
  induction bindings with
  | nil => exact .nil
  | cons b rest ih =>
    obtain ⟨name, initializer⟩ := b
    cases initializer with
    | none =>
      refine .cons (fun more hmore => ?_) (ih h.2)
      rw [List.singleton_append, binding, if_neg h.1.2, hmore.expect_eq_none (by decide)]
      rfl
    | some value =>
      refine .cons (fun more hmore => ?_) (ih h.2)
      have hvalue := reads_item (legible_expr value h.1.2.2)
        (Nat.lt_succ_of_le (Nat.le_add_right _ more.length)) more hmore
      rw [← List.length_append] at hvalue
      rw [List.cons_append, List.cons_append, binding, if_neg h.1.2.1, expect_self]
      dsimp only
      rw [hvalue]
      rfl

/-- A list of bindings is read to its end. -/
lemma separated_bindings {bindings : List Binding} (hne : bindings ≠ [])
    (h : BindingsWellFormed bindings) (rest : List Token) {n : ℕ}
    (hn : ([mark ","].intercalate (bindingTokens bindings)).length ≤ n) :
    separated binding n
      ([mark ","].intercalate (bindingTokens bindings) ++ mark ";" :: rest) =
        some (readBindings bindings, mark ";" :: rest) := by
  have hparts : ∀ part ∈ bindingTokens bindings, part ≠ [] := by
    clear h hn hne
    induction bindings with
    | nil => exact fun part hpart => by cases hpart
    | cons b rest ih =>
      obtain ⟨name, _ | value⟩ := b
      all_goals
        intro part hpart
        rcases List.mem_cons.1 hpart with rfl | hpart
        · exact List.cons_ne_nil _ _
        · exact ih part hpart
  exact separated_append (reads_bindings h) (bindingTokens_ne_nil hne) (stops_semicolon rest)
    (Nat.le_trans (length_le_intercalate hparts) hn)

end Parts

/-! ## Reading statements -/

/-- The statement is read in front of everything but an `else` that it would take, unless a part of
it opens like a declaration. -/
def StmtReadable [Lexis] (s : Stmt) : Prop :=
  ∀ depth, s.tokens.length ≤ depth → ∀ rest,
    (s.isOpen = true → expect (word "else") rest = none) →
      statement depth (s.tokens ++ rest) = if s.letFree then some (s.read, rest) else none

/-- The statements are read up to the brace behind them. -/
def BodyReadable [Lexis] (body : List Stmt) : Prop :=
  ∀ depth n, (bodyTokens body).length ≤ depth → (bodyTokens body).length < n → ∀ rest,
    statements (statement depth) n (bodyTokens body ++ mark "\x7d" :: rest) =
      if letFreeBody body then some (readBody body, rest) else none

section Reading

variable [Lexis] {condition : Expr}

/-- What opens no other statement is an expression, or would be a declaration. -/
lemma statementWith_expr {inner : Parser Stmt} {t : Token} (ht : t ∉ starters) (rest : List Token) :
    statementWith inner (t :: rest) =
      if t = word "let" ∧ rest.head? = some (mark "[") then none
      else (ended whole (t :: rest)).map fun (value, rest) => (.expr value, rest) := by
  simp only [starters, List.mem_cons, List.not_mem_nil, or_false, not_or] at ht
  obtain ⟨h₁, -, h₂, h₃, h₄, h₅, h₆, h₇, h₈, h₉, h₁₀, -⟩ := ht
  rw [statementWith, if_neg h₁, if_neg h₂, if_neg h₃, if_neg h₄, if_neg h₅, if_neg h₆, if_neg h₇,
    if_neg h₈, if_neg h₉, if_neg h₁₀]
  cases ended whole (t :: rest) <;> rfl

omit [Lexis] in
/-- Whether an expression opens like a declaration shows in its own two first tokens. -/
lemma opensLikeLet_iff {t : Token} {ts rest : List Token} :
    (t = word "let" ∧ (ts ++ mark ";" :: rest).head? = some (mark "[")) ↔
      (t :: ts).take 2 = [word "let", mark "["] := by
  cases ts <;> simp

/-- There is a token in every statement. -/
lemma exists_depth {s : Stmt} (hs : s.WellFormed) {depth : ℕ}
    (hdepth : s.tokens.length ≤ depth) : ∃ d, depth = d + 1 := by
  obtain ⟨t, ts, heq, -⟩ := exists_tokens_eq_cons hs
  rw [heq, List.length_cons] at hdepth
  exact Nat.exists_eq_add_one.2 (by omega)

/-- An expression is read as a statement. -/
lemma readable_exprStmt {value : Expr} (h : value.WellFormed) :
    StmtReadable (.expr value) := by
  intro depth hdepth rest _
  obtain ⟨depth, rfl⟩ := exists_depth (s := .expr value) h hdepth
  obtain ⟨t, ts, heq, ht⟩ := (begins_tokens value h).exists_not_mem_starters
  have hread := ended_of_eq (whole_parens value.opensLikeStatement h (stops_semicolon rest))
  rw [Stmt.tokens, Stmt.letFree, List.append_assoc, List.singleton_append]
  rw [heq, List.cons_append] at hread ⊢
  rw [statement, statementWith_expr ht, hread]
  by_cases hlet : (t :: ts).take 2 = [word "let", mark "["]
  · rw [if_pos (opensLikeLet_iff.2 hlet), decide_eq_false (not_not.2 hlet)]
    rfl
  · rw [if_neg (mt opensLikeLet_iff.1 hlet), decide_eq_true hlet]
    rfl

/-- So are declarations. -/
lemma readable_declare {bindings : List Binding} (h : (Stmt.declare bindings).WellFormed) :
    StmtReadable (.declare bindings) := by
  intro depth hdepth rest _
  obtain ⟨depth, rfl⟩ := exists_depth h hdepth
  have hlength : ([mark ","].intercalate (bindingTokens bindings)).length ≤
      ([mark ","].intercalate (bindingTokens bindings) ++ mark ";" :: rest).length := by
    rw [List.length_append]
    exact Nat.le_add_right _ _
  have hread := ended_of_eq (separated_bindings h.1 h.2 rest hlength)
  have htokens : (Stmt.declare bindings).tokens ++ rest =
      word "var" :: ([mark ","].intercalate (bindingTokens bindings) ++ mark ";" :: rest) := by
    simp [Stmt.tokens]
  rw [htokens, statement, statementWith, if_neg (by decide), if_neg (by decide), if_pos rfl, hread]
  rfl

/-- So are returns. -/
lemma readable_return {value : Expr} (h : value.WellFormed) :
    StmtReadable (.return (some value)) := by
  intro depth hdepth rest _
  obtain ⟨depth, rfl⟩ := exists_depth (s := .return (some value)) h hdepth
  have hread := ended_of_eq (whole_tokens h (stops_semicolon rest))
  -- what follows `return` is no semicolon, since an expression opens with none
  obtain ⟨t, ts, heq, ht⟩ := begins_tokens value h
  have hne : t ≠ mark ";" := by
    rintro rfl
    exact absurd (ht (by decide)).1 (by decide)
  have hnone : expect (mark ";") (value.tokens ++ mark ";" :: rest) = none := by
    rw [heq, List.cons_append, expect_of_ne hne]
  have htokens : (Stmt.return (some value)).tokens ++ rest =
      word "return" :: (value.tokens ++ mark ";" :: rest) := by
    simp [Stmt.tokens]
  rw [htokens, statement, statementWith]
  repeat rw [if_neg (by decide)]
  rw [if_pos rfl, hnone]
  dsimp only
  rw [hread]
  rfl

/-- So are throws. -/
lemma readable_throw {value : Expr} (h : value.WellFormed) :
    StmtReadable (.throw value) := by
  intro depth hdepth rest _
  obtain ⟨depth, rfl⟩ := exists_depth (s := .throw value) h hdepth
  have hread := ended_of_eq (whole_tokens h (stops_semicolon rest))
  have htokens : (Stmt.throw value).tokens ++ rest =
      word "throw" :: (value.tokens ++ mark ";" :: rest) := by
    simp [Stmt.tokens]
  rw [htokens, statement, statementWith]
  repeat rw [if_neg (by decide)]
  rw [if_pos rfl, hread]
  rfl

/-- Statements of a keyword and a semicolon, and the empty one. -/
lemma readable_plain {s : Stmt} (hs : s ∈ [.return none, .break, .continue, .empty]) :
    StmtReadable s := by
  simp only [List.mem_cons, List.not_mem_nil, or_false] at hs
  intro depth hdepth rest _
  rcases hs with rfl | rfl | rfl | rfl
  all_goals
    cases depth with
    | zero => exact absurd hdepth (by decide)
    | succ depth => rfl

/-- So are branches without `else`. -/
lemma readable_branch {thenBranch : Stmt} (h : (Stmt.branch condition thenBranch none).WellFormed)
    (hthen : StmtReadable thenBranch) : StmtReadable (.branch condition thenBranch none) := by
  intro depth hdepth rest hrest
  obtain ⟨depth, rfl⟩ := exists_depth h hdepth
  have hnone := hrest rfl
  have hlength : thenBranch.tokens.length ≤ depth := by
    simp only [Stmt.tokens, List.length_append, List.length_cons] at hdepth
    omega
  have htokens : (Stmt.branch condition thenBranch none).tokens ++ rest =
      word "if" :: (conditionTokens condition ++ (thenBranch.tokens ++ rest)) := by
    simp [Stmt.tokens]
  rw [htokens, statement, statementWith]
  repeat rw [if_neg (by decide)]
  rw [if_pos rfl, enclosed_tokens h.1]
  simp only [Option.bind_eq_bind, Option.bind_some]
  rw [hthen depth hlength rest fun _ => hnone, Stmt.letFree]
  cases thenBranch.letFree with
  | false => rfl
  | true =>
    simp only [if_true, Option.bind_some]
    rw [hnone]
    rfl

/-- So are those with one that is attached. -/
lemma readable_branchElse {thenBranch elseBranch : Stmt}
    (h : (Stmt.branch condition thenBranch (some elseBranch)).WellFormed)
    (hclosed : thenBranch.isOpen = false) (hthen : StmtReadable thenBranch)
    (helse : StmtReadable elseBranch) :
    StmtReadable (.branch condition thenBranch (some elseBranch)) := by
  intro depth hdepth rest hrest
  obtain ⟨depth, rfl⟩ := exists_depth h hdepth
  simp only [Stmt.tokens, List.length_append, List.length_cons] at hdepth
  have htokens : (Stmt.branch condition thenBranch (some elseBranch)).tokens ++ rest =
      word "if" :: (conditionTokens condition ++
        (thenBranch.tokens ++ word "else" :: (elseBranch.tokens ++ rest))) := by
    simp [Stmt.tokens]
  rw [htokens, statement, statementWith]
  repeat rw [if_neg (by decide)]
  rw [if_pos rfl, enclosed_tokens h.1]
  simp only [Option.bind_eq_bind, Option.bind_some]
  -- the first branch is closed, so it leaves the `else` behind it
  rw [hthen depth (by omega) _ fun hopen => absurd hopen (Bool.eq_false_iff.1 hclosed),
    Stmt.letFree]
  cases thenBranch.letFree with
  | false => rfl
  | true =>
    simp only [if_true, Option.bind_some, Bool.true_and]
    rw [expect_self]
    dsimp only
    rw [helse depth (by omega) rest hrest]
    cases elseBranch.letFree <;> rfl

/-- So are loops. -/
lemma readable_while {body : Stmt} (h : (Stmt.whileLoop condition body).WellFormed)
    (hbody : StmtReadable body) : StmtReadable (.whileLoop condition body) := by
  intro depth hdepth rest hrest
  obtain ⟨depth, rfl⟩ := exists_depth h hdepth
  simp only [Stmt.tokens, List.length_append, List.length_cons] at hdepth
  have htokens : (Stmt.whileLoop condition body).tokens ++ rest =
      word "while" :: (conditionTokens condition ++ (body.tokens ++ rest)) := by
    simp [Stmt.tokens]
  rw [htokens, statement, statementWith]
  repeat rw [if_neg (by decide)]
  rw [if_pos rfl, enclosed_tokens h.1]
  simp only [Option.bind_eq_bind, Option.bind_some]
  rw [hbody depth (by omega) rest hrest, Stmt.letFree]
  cases body.letFree <;> rfl

/-- So are loops that test at their end. -/
lemma readable_doWhile {body : Stmt} (h : (Stmt.doWhile body condition).WellFormed)
    (hbody : StmtReadable body) : StmtReadable (.doWhile body condition) := by
  intro depth hdepth rest _
  obtain ⟨depth, rfl⟩ := exists_depth h hdepth
  simp only [Stmt.tokens, List.length_append, List.length_cons] at hdepth
  have hread := ended_of_eq (enclosed_tokens h.1 (mark ";" :: rest))
  have htokens : (Stmt.doWhile body condition).tokens ++ rest =
      word "do" :: (body.tokens ++
        word "while" :: (conditionTokens condition ++ mark ";" :: rest)) := by
    simp [Stmt.tokens]
  rw [htokens, statement, statementWith]
  repeat rw [if_neg (by decide)]
  rw [if_pos rfl,
    hbody depth (by omega) _ fun _ => expect_of_ne (by decide) _, Stmt.letFree]
  cases body.letFree with
  | false => rfl
  | true =>
    simp only [if_true, Option.bind_eq_bind, Option.bind_some]
    rw [expect_self]
    simp only [Option.bind_some]
    rw [hread]
    rfl

/-- So are blocks. -/
lemma readable_block {body : List Stmt} (hbody : BodyReadable body) :
    StmtReadable (.block body) := by
  intro depth hdepth rest _
  simp only [Stmt.tokens, List.length_append, List.length_cons] at hdepth
  obtain ⟨depth, rfl⟩ : ∃ d, depth = d + 1 := Nat.exists_eq_add_one.2 (by omega)
  have hread := hbody depth (bodyTokens body ++ mark "\x7d" :: rest).length (by omega)
    (by simp only [List.length_append, List.length_cons]; omega) rest
  have htokens : (Stmt.block body).tokens ++ rest =
      mark "\x7b" :: (bodyTokens body ++ mark "\x7d" :: rest) := by
    simp [Stmt.tokens]
  rw [htokens, statement, statementWith, if_pos rfl, hread, Stmt.letFree]
  cases letFreeBody body <;> rfl

/-- A statement of a block is read in front of the next one. -/
lemma bodyReadable_cons {s : Stmt} {body : List Stmt} (hs : s.WellFormed)
    (hbody : BodyWellFormed body) (hfirst : StmtReadable s)
    (hrest : BodyReadable body) : BodyReadable (s :: body) := by
  intro depth n hdepth hn rest
  rw [bodyTokens, List.length_append] at hdepth hn
  obtain ⟨n, rfl⟩ : ∃ m, n = m + 1 := Nat.exists_eq_add_one.2 (by omega)
  obtain ⟨t, ts, heq, ht⟩ := exists_tokens_eq_cons hs
  have hlength : 0 < s.tokens.length := by rw [heq]; exact Nat.succ_pos _
  have hbrace : expect (mark "\x7d") (s.tokens ++ (bodyTokens body ++ mark "\x7d" :: rest)) =
      none := by
    rw [heq, List.cons_append]
    exact expect_of_ne (fun h => ht (by simp [h])) _
  -- no `else` opens what follows
  have helse : expect (word "else") (bodyTokens body ++ mark "\x7d" :: rest) = none := by
    cases body with
    | nil => exact expect_of_ne (by decide) rest
    | cons next others =>
      obtain ⟨u, us, hequ, hu⟩ := exists_tokens_eq_cons hbody.1
      rw [bodyTokens, hequ, List.cons_append, List.cons_append]
      exact expect_of_ne (fun h => hu (by simp [h])) _
  rw [bodyTokens, List.append_assoc, statements, hbrace]
  dsimp only
  rw [hfirst depth (by omega) _ fun _ => helse, letFreeBody]
  cases s.letFree with
  | false => rfl
  | true =>
    simp only [if_true, Option.bind_eq_bind, Option.bind_some, Bool.true_and]
    rw [hrest depth n (by omega) (by omega) rest]
    cases letFreeBody body <;> rfl

mutual

/-- Every statement whose elses are attached is read. -/
theorem readable_stmt : ∀ s : Stmt, s.WellFormed → s.ElseAttached → StmtReadable s
  | .declare _, h, _ => readable_declare h
  | .expr _, h, _ => readable_exprStmt h
  | .block body, h, hattached => readable_block (readable_body body h hattached)
  | .return none, _, _ | .break, _, _ | .continue, _, _ | .empty, _, _ => readable_plain (by simp)
  | .return (some _), h, _ => readable_return h
  | .throw _, h, _ => readable_throw h
  | .branch _ thenBranch none, h, hattached =>
    readable_branch h (readable_stmt thenBranch h.2 hattached)
  | .branch _ thenBranch (some elseBranch), h, hattached =>
    readable_branchElse h hattached.1 (readable_stmt thenBranch h.2.1 hattached.2.1)
      (readable_stmt elseBranch h.2.2 hattached.2.2)
  | .whileLoop _ body, h, hattached => readable_while h (readable_stmt body h.2 hattached)
  | .doWhile body _, h, hattached => readable_doWhile h (readable_stmt body h.2 hattached)

/-- Well-formed blocks are readable if every `else` is attached. -/
theorem readable_body : ∀ body : List Stmt, BodyWellFormed body → BodyElseAttached body →
    BodyReadable body
  | [], _, _ => by
    intro depth n _ hn rest
    obtain ⟨n, rfl⟩ : ∃ m, n = m + 1 := Nat.exists_eq_add_one.2 (by omega)
    rw [bodyTokens, List.nil_append, statements, expect_self]
    rfl
  | s :: rest, h, hattached =>
    bodyReadable_cons h.1 h.2 (readable_stmt s h.1 hattached.1)
      (readable_body rest h.2 hattached.2)

end

/-- The text of a statement is read as the statement with each `else` at the nearest open `if`, and
refused only if a part of it opens like a declaration. -/
lemma parseStatement_stmtText {layout : Layout} (hlayout : layout.IsBlank) {s : Stmt}
    (hs : s.WellFormed) :
    parseStatement (layout.stmtText s) = if s.letFree then some s.attached.read else none := by
  have hspells := (spells_stmt hlayout s hs 0).trailing hlayout.newline
  have hlex : lex (layout.stmtText s).toList = some s.attached.tokens := by
    rw [Layout.stmtText, String.toList_append, tokens_attached]
    exact hspells.lex_eq
  have hread := readable_stmt s.attached (wellFormed_attached s hs) (elseAttached_attached s)
    s.attached.tokens.length (Nat.le_refl _) [] fun _ => rfl
  rw [List.append_nil, letFree_attached] at hread
  rw [parseStatement, hlex]
  simp only [Option.bind_eq_bind, Option.bind_some]
  rw [hread]
  cases s.letFree <;> rfl

/-- The text of a statement reads back as the statement exactly if each `else` in it is at the
nearest open `if` and no part of it opens like a declaration.  In any case it is read as the
statement with each `else` at the nearest open `if`, or refused because of such a part. -/
theorem stmtText_reads_back_iff {layout : Layout} (hlayout : layout.IsBlank) {s : Stmt}
    (hs : s.WellFormed) :
    (parseStatement (layout.stmtText s) = if s.letFree then some s.attached.read else none) ∧
      (parseStatement (layout.stmtText s) = some s.read ↔ s.letFree = true ∧ s.ElseAttached) := by
  have hparse := parseStatement_stmtText hlayout hs
  refine ⟨hparse, ?_⟩
  rw [hparse]
  constructor
  · intro h
    split_ifs at h with hfree
    exact ⟨hfree, elseAttached_of_read_eq s (Option.some.inj h)⟩
  · rintro ⟨hfree, hattached⟩
    rw [if_pos hfree, attached_eq_self s hattached]

end Reading

/-- `if (a) while (b) { if (c) x(); } else if (d) y();`, whose first branch a block closes -/
def sampleNested : Stmt :=
  .branch (.ident "a")
    (.whileLoop (.ident "b")
      (.block [.branch (.ident "c") (.expr (.call (.ident "x") [])) none]))
    (some (.branch (.ident "d") (.expr (.call (.ident "y") [])) none))

section Samples

attribute [local instance] sampleLexis

theorem stmtText_reads_back_iff_sampleNested :
    Layout.IsBlank { indent := "\t", newline := "\r\n" } ∧ sampleNested.WellFormed ∧
      parseStatement (Layout.stmtText { indent := "\t", newline := "\r\n" } sampleNested) =
        some sampleNested.read := by
  have hlayout : Layout.IsBlank { indent := "\t", newline := "\r\n" } := ⟨by decide, .inr rfl⟩
  have hwellFormed : sampleNested.WellFormed := by decide
  have hfree : sampleNested.letFree = true := by decide
  have hattached : sampleNested.ElseAttached := by decide
  exact ⟨hlayout, hwellFormed, (stmtText_reads_back_iff hlayout hwellFormed).2.2 ⟨hfree, hattached⟩⟩

/-- An `if` with an `else`, around an `if` without one -/
def danglingElse : Stmt :=
  .branch (.ident "a") (.branch (.ident "b") (.expr (.call (.ident "x") [])) none)
    (some (.expr (.call (.ident "y") [])))

/-- Its text is read with the `else` at the inner `if`. -/
theorem danglingElse_read_at_inner_if :
    parseStatement (Layout.stmtText {} danglingElse) =
        some (.branch (.ident "a")
          (.branch (.ident "b") (.expr (.call (.ident "x") []))
            (some (.expr (.call (.ident "y") [])))) none) ∧
      parseStatement (Layout.stmtText {} danglingElse) ≠ some danglingElse.read := by
  have hlayout : Layout.IsBlank {} := ⟨by decide, .inl rfl⟩
  have hwellFormed : danglingElse.WellFormed := by decide
  have hparse := parseStatement_stmtText hlayout hwellFormed
  have hfree : danglingElse.letFree = true := by decide
  rw [if_pos hfree] at hparse
  refine ⟨hparse, ?_⟩
  intro hself
  have hattached := elseAttached_of_read_eq danglingElse (Option.some.inj (hparse.symm.trans hself))
  exact absurd hattached (by decide)

end Samples

end ScriptCompiler.Script
