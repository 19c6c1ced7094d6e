import ScriptCompiler.Proofs.Printing.Spelling

/-!
# A parser for statements, and the tokens of printed ones

The first token of a statement says what it is: a brace opens a block, keywords open the statements
they name, and everything else is an expression with a semicolon behind it.  An `else` goes to the
branch that was read last, so it belongs to the nearest `if` that is still open.  Semicolons are
never left out.  A statement that opens with `let [` would be a declaration, which the printer does
not write: such a text is refused.

What the printer writes is read by the lexer as the tokens of the statement, as long as lines are
indented by blanks and tabs and separated by line separators.
-/

namespace ScriptCompiler.Script

open Token

namespace Grammar

/-! ## The grammar of statements -/

/-- Something with a semicolon behind it. -/
def ended {α : Type} (parser : Parser α) : Parser α := fun tokens => do
  let (a, rest) ← parser tokens
  return (a, ← expect (.mark ";") rest)

/-- Statements up to the brace that closes their block; fewer than `n` of them. -/
def statements (inner : Parser Stmt) : Nat → Parser (List Stmt)
  | 0, _ => none
  | n + 1, tokens =>
    match expect (.mark "\x7d") tokens with
    | some rest => some ([], rest)
    | none => do
      let (first, rest) ← inner tokens
      let (others, rest) ← statements inner n rest
      return (first :: others, rest)

section Parts

variable [Lexis]

/-- An expression with as deep brackets as there are tokens. -/
def whole : Parser Expr := fun tokens =>
  expression (assignment (tokens.length + 1)) tokens

/-- An expression in parentheses. -/
def enclosed : Parser Expr := fun tokens => do
  let (e, rest) ← whole (← expect (.mark "(") tokens)
  return (e, ← expect (.mark ")") rest)

/-- `name` or `name = value` -/
def binding : Parser Binding
  | .word name :: rest =>
    if name ∈ reserved then none
    else
      match expect (.mark "=") rest with
      | none => some (.mk name none, rest)
      | some rest => do
        let (value, rest) ← assignment (rest.length + 1) rest
        return (.mk name (some value), rest)
  | _ => none

/-- A statement; the statements inside it are read by `inner`. -/
def statementWith (inner : Parser Stmt) : Parser Stmt
  | [] => none
  | t :: rest =>
    if t = .mark "\x7b" then do
      let (body, rest) ← statements inner rest.length rest
      return (.block body, rest)
    else if t = .mark ";" then some (.empty, rest)
    else if t = .word "var" then do
      let (bindings, rest) ← ended (separated binding rest.length) rest
      return (.declare bindings, rest)
    else if t = .word "if" then do
      let (condition, rest) ← enclosed rest
      let (thenBranch, rest) ← inner rest
      match expect (.word "else") rest with
      | none => return (.branch condition thenBranch none, rest)
      | some rest =>
        let (elseBranch, rest) ← inner rest
        return (.branch condition thenBranch (some elseBranch), rest)
    else if t = .word "while" then do
      let (condition, rest) ← enclosed rest
      let (body, rest) ← inner rest
      return (.whileLoop condition body, rest)
    else if t = .word "do" then do
      let (body, rest) ← inner rest
      let (condition, rest) ← ended enclosed (← expect (.word "while") rest)
      return (.doWhile body condition, rest)
    else if t = .word "return" then
      match expect (.mark ";") rest with
      | some rest => some (.return none, rest)
      | none => do
        let (value, rest) ← ended whole rest
        return (.return (some value), rest)
    else if t = .word "break" then (expect (.mark ";") rest).map fun rest => (.break, rest)
    else if t = .word "continue" then (expect (.mark ";") rest).map fun rest => (.continue, rest)
    else if t = .word "throw" then do
      let (value, rest) ← ended whole rest
      return (.throw value, rest)
    else if t = .word "let" ∧ rest.head? = some (.mark "[") then none
    else do
      let (value, rest) ← ended whole (t :: rest)
      return (.expr value, rest)

/-- A statement in which statements are nested to at most the given depth. -/
def statement : Nat → Parser Stmt
  | 0 => fun _ => none
  | depth + 1 => statementWith (statement depth)

/-- The statement that a text is, read as a whole. -/
def parseStatement (text : String) : Option Stmt := do
  let tokens ← lex text.toList
  let (s, rest) ← statement tokens.length tokens
  if rest.isEmpty then some s else none

end Parts

end Grammar

open Grammar (reserved)

/-! ## What is printed -/

/-- The names are identifiers, and the initial values can be written so that they read back. -/
def BindingsWellFormed [Lexis] : List Binding → Prop
  | [] => True
  | .mk name none :: rest =>
    (Lexis.isName name = true ∧ name ∉ reserved) ∧ BindingsWellFormed rest
  | .mk name (some value) :: rest =>
    (Lexis.isName name = true ∧ name ∉ reserved ∧ value.WellFormed) ∧ BindingsWellFormed rest

mutual

/-- The statement is free of comments, its expressions can be written so that they read back, and
its declarations declare something. -/
def Stmt.WellFormed [Lexis] : Stmt → Prop
  | .comment _ => False
  | .declare bindings => bindings ≠ [] ∧ BindingsWellFormed bindings
  | .expr value | .return (some value) | .throw value => value.WellFormed
  | .block body => BodyWellFormed body
  | .return none | .break | .continue | .empty => True
  | .branch condition thenBranch none => condition.WellFormed ∧ thenBranch.WellFormed
  | .branch condition thenBranch (some elseBranch) =>
    condition.WellFormed ∧ thenBranch.WellFormed ∧ elseBranch.WellFormed
  | .whileLoop condition body | .doWhile body condition => condition.WellFormed ∧ body.WellFormed

/-- All statements of a block are well-formed. -/
def BodyWellFormed [Lexis] : List Stmt → Prop
  | [] => True
  | s :: rest => s.WellFormed ∧ BodyWellFormed rest

end

instance decidableBindingsWellFormed [Lexis] :
    (bindings : List Binding) → Decidable (BindingsWellFormed bindings)
  | [] => isTrue trivial
  | .mk _ none :: rest | .mk _ (some _) :: rest =>
    @instDecidableAnd _ _ _ (decidableBindingsWellFormed rest)

mutual

instance Stmt.decidableWellFormed [Lexis] : (s : Stmt) → Decidable s.WellFormed
  | .comment _ => isFalse id
  | .declare _ => inferInstanceAs (Decidable (_ ∧ _))
  | .expr value | .return (some value) | .throw value => value.decidableWellFormed
  | .block body => decidableBodyWellFormed body
  | .return none | .break | .continue | .empty => isTrue trivial
  | .branch _ body none | .whileLoop _ body | .doWhile body _ =>
    @instDecidableAnd _ _ _ body.decidableWellFormed
  | .branch _ thenBranch (some elseBranch) =>
    @instDecidableAnd _ _ _
      (@instDecidableAnd _ _ thenBranch.decidableWellFormed elseBranch.decidableWellFormed)

instance decidableBodyWellFormed [Lexis] : (body : List Stmt) → Decidable (BodyWellFormed body)
  | [] => isTrue trivial
  | s :: rest => @instDecidableAnd _ _ s.decidableWellFormed (decidableBodyWellFormed rest)

end

/-- Bindings as they read back. -/
def readBindings : List Binding → List Binding
  | [] => []
  | .mk name initializer :: rest => .mk name (initializer.map Expr.read) :: readBindings rest

mutual

/-- The statement as it reads back: its expressions do. -/
def Stmt.read : Stmt → Stmt
  | .comment text => .comment text
  | .declare bindings => .declare (readBindings bindings)
  | .expr value => .expr value.read
  | .block body => .block (readBody body)
  | .return none => .return none
  | .return (some value) => .return (some value.read)
  | .branch condition thenBranch none => .branch condition.read thenBranch.read none
  | .branch condition thenBranch (some elseBranch) =>
    .branch condition.read thenBranch.read (some elseBranch.read)
  | .whileLoop condition body => .whileLoop condition.read body.read
  | .doWhile body condition => .doWhile body.read condition.read
  | .break => .break
  | .continue => .continue
  | .throw value => .throw value.read
  | .empty => .empty

/-- The statements of a block as they read back. -/
def readBody : List Stmt → List Stmt
  | [] => []
  | s :: rest => s.read :: readBody rest

end

/-! ## Tokens -/

/-- The tokens of each binding of a declaration. -/
def bindingTokens : List Binding → List (List Token)
  | [] => []
  | .mk name none :: rest => [word name] :: bindingTokens rest
  | .mk name (some value) :: rest =>
    (word name :: mark "=" :: parens (value.bindsLooser 2) value.tokens) :: bindingTokens rest

lemma bindingTokens_ne_nil {bindings : List Binding} (h : bindings ≠ []) :
    bindingTokens bindings ≠ [] := by
  cases bindings with
  | nil => exact absurd rfl h
  | cons b rest =>
    obtain ⟨name, _ | value⟩ := b
    all_goals exact List.cons_ne_nil _ _

/-- A condition in parentheses. -/
def conditionTokens (condition : Expr) : List Token :=
  mark "(" :: condition.tokens ++ [mark ")"]

mutual

/-- The tokens of a statement. -/
def Stmt.tokens : Stmt → List Token
  | .comment _ => []
  | .declare bindings =>
    word "var" :: [mark ","].intercalate (bindingTokens bindings) ++ [mark ";"]
  | .expr value => parens value.opensLikeStatement value.tokens ++ [mark ";"]
  | .block body => mark "\x7b" :: bodyTokens body ++ [mark "\x7d"]
  | .return none => [word "return", mark ";"]
  | .return (some value) => word "return" :: value.tokens ++ [mark ";"]
  | .branch condition thenBranch none =>
    word "if" :: conditionTokens condition ++ thenBranch.tokens
  | .branch condition thenBranch (some elseBranch) =>
    word "if" :: conditionTokens condition ++ thenBranch.tokens ++ word "else" :: elseBranch.tokens
  | .whileLoop condition body => word "while" :: conditionTokens condition ++ body.tokens
  | .doWhile body condition =>
    word "do" :: body.tokens ++ word "while" :: conditionTokens condition ++ [mark ";"]
  | .break => [word "break", mark ";"]
  | .continue => [word "continue", mark ";"]
  | .throw value => word "throw" :: value.tokens ++ [mark ";"]
  | .empty => [mark ";"]

/-- The tokens of statements one after the other. -/
def bodyTokens : List Stmt → List Token
  | [] => []
  | s :: rest => s.tokens ++ bodyTokens rest

end

/-! ## Spelling -/

/-- Lines are indented by blanks and tabs and separated by line separators. -/
def Layout.IsBlank (layout : Layout) : Prop :=
  (∀ c ∈ layout.indent.toList, c = ' ' ∨ c = '\t') ∧
    (layout.newline = "\n" ∨ layout.newline = "\r\n")

namespace Layout

variable {layout : Layout}

lemma IsBlank.lead (h : layout.IsBlank) (depth : ℕ) :
    ∀ c ∈ (layout.lead depth).toList, c.isWhitespace := by
  intro c hc
  rw [Layout.lead, String.toList_join, List.mem_flatMap] at hc
  obtain ⟨indent, hindent, hc⟩ := hc
  rw [List.eq_of_mem_replicate hindent] at hc
  rcases h.1 c hc with rfl | rfl <;> decide

lemma IsBlank.newline (h : layout.IsBlank) : ∀ c ∈ layout.newline.toList, c.isWhitespace := by
  rcases h.2 with hnewline | hnewline <;> rw [hnewline] <;> decide

/-- A new line, and the indentation in front of it. -/
lemma IsBlank.newLine (h : layout.IsBlank) (depth : ℕ) :
    (layout.newLine depth).toList ≠ [] ∧ ∀ c ∈ (layout.newLine depth).toList, c.isWhitespace := by
  rw [Layout.newLine, String.toList_append]
  constructor
  · refine List.append_ne_nil_of_left_ne_nil ?_ _
    rcases h.2 with hnewline | hnewline <;> rw [hnewline] <;> decide
  · intro c hc
    rcases List.mem_append.1 hc with hc | hc
    · exact h.newline c hc
    · exact h.lead depth c hc

end Layout

/-- A semicolon behind a text. -/
lemma Spells.semicolon [Lexis] {cs : List Char} {tokens : List Token} (h : Spells cs tokens) :
    Spells (cs ++ [';']) (tokens ++ [mark ";"]) :=
  h.append_closing (Spells.of_mark (m := ";") (by decide)) (by decide)

section Spelling

variable [Lexis] (layout : Layout) (depth : ℕ)

/-- The texts of bindings spell their tokens. -/
lemma spells_bindings {bindings : List Binding} (h : BindingsWellFormed bindings) :
    List.Forall₂ Spells ((bindingTexts layout depth bindings).map String.toList)
      (bindingTokens bindings) := by
  induction bindings with
  | nil => exact .nil
  | cons b rest ih =>
    obtain ⟨name, initializer⟩ := b
    cases initializer with
    | none => exact .cons (spells_word h.1.1) (ih h.2)
    | some value =>
      refine .cons ?_ (ih h.2)
      have hvalue := spells_enclose (spells_expr layout depth value h.1.2.2)
        (value.bindsLooser 2)
      simpa using (spells_word h.1.1).infixed (m := "=") (by decide) hvalue

/-- A condition in parentheses behind a keyword. -/
lemma spells_condition (keyword : String) (hkeyword : Lexis.isAsciiName keyword = true)
    {condition : Expr} (h : condition.WellFormed) :
    Spells (keyword.toList ++ ' ' :: '(' :: (condition.core layout depth).toList ++ [')'])
      (word keyword :: conditionTokens condition) := by
  have hcondition := (((spells_expr layout depth condition h).opening (m := "(")
    (by decide)).closing (m := ")") (by decide))
  simpa [conditionTokens] using (spells_keyword keyword hkeyword).blank hcondition

variable {layout}

/-- The body of a branch or loop stands on the line of its header or on a line of its own. -/
lemma Spells.body (hlayout : layout.IsBlank) {head : List Char} {tokens : List Token}
    (h : Spells head tokens) {s : Stmt}
    (hs : ∀ depth, Spells (s.inline layout depth).toList s.tokens) (sameLine : Bool) :
    Spells (head ++ (if sameLine then " " ++ s.inline layout depth
        else layout.newLine (depth + 1) ++ s.inline layout (depth + 1)).toList)
      (tokens ++ s.tokens) := by
  cases sameLine with
  | true => simpa using h.blank (hs depth)
  | false =>
    obtain ⟨hne, hspace⟩ := hlayout.newLine (depth + 1)
    simpa using h.spaced _ (hs (depth + 1)) hne hspace

/-- The same with a keyword behind the body. -/
lemma Spells.body_between (hlayout : layout.IsBlank) {head tail : List Char}
    {tokens tokens' : List Token} (h : Spells head tokens) {s : Stmt}
    (hs : ∀ depth, Spells (s.inline layout depth).toList s.tokens) (sameLine : Bool)
    (h' : Spells tail tokens') :
    Spells (head ++ (if sameLine then " " ++ s.inline layout depth ++ " "
        else layout.newLine (depth + 1) ++ s.inline layout (depth + 1)
          ++ layout.newLine depth).toList ++ tail)
      (tokens ++ s.tokens ++ tokens') := by
  cases sameLine with
  | true => simpa using (h.blank (hs depth)).blank h'
  | false =>
    obtain ⟨hne, hspace⟩ := hlayout.newLine (depth + 1)
    obtain ⟨hne', hspace'⟩ := hlayout.newLine depth
    simpa using (h.spaced _ (hs (depth + 1)) hne hspace).spaced _ h' hne' hspace'

attribute [local simp] Stmt.inline Stmt.tokens

mutual

/-- The text of a statement spells its tokens. -/
theorem spells_stmt (hlayout : layout.IsBlank) : ∀ s : Stmt, s.WellFormed → ∀ depth,
    Spells (s.inline layout depth).toList s.tokens
  | .declare bindings, h, depth => by
    have hword := spells_keyword "var" (by decide)
    have hitems := Spells.separated (spells_bindings layout depth h.2) (bindingTokens_ne_nil h.1)
    simpa [String.toList_intercalate] using
      (hword.blank hitems).semicolon
  | .expr value, h, depth => by
    have hvalue := spells_enclose (spells_expr layout depth value h)
      value.opensLikeStatement
    simpa using hvalue.semicolon
  | .block body, h, depth => by
    rw [Stmt.inline, Stmt.tokens]
    exact spells_block hlayout body h depth
  | .return none, _, _ => by
    simpa using (spells_keyword "return" (by decide)).semicolon
  | .return (some value), h, depth => by
    have hword := spells_keyword "return" (by decide)
    have hvalue := hword.blank (spells_expr layout depth value h)
    simpa using hvalue.semicolon
  | .branch condition thenBranch none, h, depth => by
    have hhead := spells_condition layout depth "if" (by decide) h.1
    have hbranch := hhead.body depth hlayout (spells_stmt hlayout thenBranch h.2)
      thenBranch.isBlock
    simpa using hbranch
  | .branch condition thenBranch (some elseBranch), h, depth => by
    have hhead := spells_condition layout depth "if" (by decide) h.1
    have hword := spells_keyword "else" (by decide)
    have hthen := hhead.body_between depth hlayout (spells_stmt hlayout thenBranch h.2.1)
      thenBranch.isBlock hword
    have hboth := hthen.body depth hlayout (spells_stmt hlayout elseBranch h.2.2)
      (elseBranch.isBlock || elseBranch.isBranch)
    simpa using hboth
  | .whileLoop condition body, h, depth => by
    have hhead := spells_condition layout depth "while" (by decide) h.1
    have hbody := hhead.body depth hlayout (spells_stmt hlayout body h.2) body.isBlock
    simpa using hbody
  | .doWhile body condition, h, depth => by
    have hword := spells_keyword "do" (by decide)
    have hcondition := spells_condition layout depth "while" (by decide) h.1
    have hboth := hword.body_between depth hlayout (spells_stmt hlayout body h.2) body.isBlock
      hcondition.semicolon
    simpa using hboth
  | .break, _, _ => by
    simpa using (spells_keyword "break" (by decide)).semicolon
  | .continue, _, _ => by
    simpa using (spells_keyword "continue" (by decide)).semicolon
  | .throw value, h, depth => by
    have hword := spells_keyword "throw" (by decide)
    have hvalue := hword.blank (spells_expr layout depth value h)
    simpa using hvalue.semicolon
  | .empty, _, _ => Spells.of_mark (m := ";") (by decide)

/-- The text of a block spells its tokens. -/
theorem spells_block (hlayout : layout.IsBlank) : ∀ body : List Stmt, BodyWellFormed body →
    ∀ depth, Spells (blockText layout depth body).toList
      (mark "\x7b" :: bodyTokens body ++ [mark "\x7d"])
  | [], _, _ => by
    have hbraces := (Spells.of_mark (m := "\x7b") (by decide)).closing (m := "\x7d") (by decide)
    simpa [blockText, bodyTokens] using hbraces
  | first :: rest, h, depth => by
    have hbrace : Spells "\x7b".toList [mark "\x7b"] := Spells.of_mark (by decide)
    have hfirst := hbrace.spaced _ (spells_stmt hlayout first h.1 (depth + 1))
      (hlayout.newLine (depth + 1)).1 (hlayout.newLine (depth + 1)).2
    have hlines := spells_lines hlayout rest h.2 (depth + 1) hfirst
    have hclosed := (hlines.trailing (hlayout.lead depth)).closing (m := "\x7d") (by decide)
    simpa [blockText, bodyTokens, Layout.newLine] using hclosed

/-- Statements on lines of their own behind a text spell their tokens. -/
theorem spells_lines (hlayout : layout.IsBlank) : ∀ body : List Stmt, BodyWellFormed body →
    ∀ depth {head : List Char} {tokens : List Token}, Spells head tokens →
      Spells (head ++ (layout.newline ++ linesText layout depth body).toList)
        (tokens ++ bodyTokens body)
  | [], _, _, _, _, hhead => by
    simpa [linesText, bodyTokens] using hhead.trailing hlayout.newline
  | s :: rest, h, depth, _, _, hhead => by
    have hfirst := hhead.spaced _ (spells_stmt hlayout s h.1 depth)
      (hlayout.newLine depth).1 (hlayout.newLine depth).2
    simpa [linesText, bodyTokens, Layout.newLine] using spells_lines hlayout rest h.2 depth hfirst

end

end Spelling

end ScriptCompiler.Script
