import ScriptCompiler.Proofs.Printing.Lexer
import ScriptCompiler.Script.Tree

/-!
# A parser for expressions

The grammar of expressions, one function for each of its levels.  From the tightest to the loosest:
primary expressions, member accesses and calls, `x++`, signs and other operators in front, eight
levels of binary operators that group to the left, `&&` and `||`, or `??` in their place,
conditionals, assignments, and lists with commas.

Every function takes a list of tokens and yields the expression in front of it and the tokens
behind.  Whatever stands in brackets, on the right of an assignment or in a branch of a conditional
is read by `inner`; `assignment` ties the knot, with a bound on how deep the brackets nest.

The parser knows nothing of the binding strengths of the printer: its levels are the tables of
operators below.
-/

namespace ScriptCompiler.Script

namespace Grammar

/-- Reads something off the front of a list of tokens. -/
abbrev Parser (α : Type) :=
  List Token → Option (α × List Token)

/-! ## Tables -/

/-- Words with a meaning of their own. -/
def constants : List (String × Expr) :=
  [("null", .null), ("true", .boolean true), ("false", .boolean false), ("this", .this)]

/-- Words that are not identifiers. -/
def reserved : List String :=
  ["break", "case", "catch", "class", "const", "continue", "debugger", "default", "delete",
   "do", "else", "enum", "export", "extends", "false", "finally", "for", "function", "if", "import",
   "in", "instanceof", "new", "null", "return", "super", "switch", "this", "throw", "true", "try",
   "typeof", "var", "void", "while", "with"]

/-- Operators in front of their operand. -/
def prefixes : List (Token × UnaryOp) :=
  [(.mark "-", .negate), (.mark "+", .plus), (.mark "!", .not), (.mark "~", .bitwiseNot),
   (.mark "++", .preIncrement), (.mark "--", .preDecrement), (.word "typeof", .typeOf)]

/-- Operators behind their operand. -/
def updates : List (Token × UpdateOp) :=
  [(.mark "++", .increment), (.mark "--", .decrement)]

/-- Binary operators with their marks. -/
abbrev Table := List (Token × BinaryOp)

/-- The levels of binary operators, the loosest first. -/
def levels : List Table :=
  [[(.mark "|", .bitwiseOr)],
   [(.mark "^", .bitwiseXor)],
   [(.mark "&", .bitwiseAnd)],
   [(.mark "==", .equal), (.mark "!=", .notEqual), (.mark "===", .strictEqual),
    (.mark "!==", .strictNotEqual)],
   [(.mark "<", .lessThan), (.mark "<=", .lessEqual), (.mark ">", .greaterThan),
    (.mark ">=", .greaterEqual)],
   [(.mark "<<", .leftShift), (.mark ">>", .rightShift), (.mark ">>>", .unsignedRightShift)],
   [(.mark "+", .add), (.mark "-", .subtract)],
   [(.mark "*", .multiply), (.mark "/", .divide), (.mark "%", .modulo)]]

/-- The operator of conjunctions. -/
def conjunctions : Table := [(.mark "&&", .logicalAnd)]

/-- The operator of disjunctions. -/
def disjunctions : Table := [(.mark "||", .logicalOr)]

/-- The operator that stands in for nulls. -/
def coalescings : Table := [(.mark "??", .nullCoalescing)]

/-- Assignments, plain and compound. -/
def assignments : List (Token × Option BinaryOp) :=
  [(.mark "=", none), (.mark "+=", some .add), (.mark "-=", some .subtract),
   (.mark "*=", some .multiply), (.mark "/=", some .divide), (.mark "%=", some .modulo),
   (.mark "&=", some .bitwiseAnd), (.mark "|=", some .bitwiseOr), (.mark "^=", some .bitwiseXor),
   (.mark "<<=", some .leftShift), (.mark ">>=", some .rightShift),
   (.mark ">>>=", some .unsignedRightShift), (.mark "&&=", some .logicalAnd),
   (.mark "||=", some .logicalOr), (.mark "??=", some .nullCoalescing)]

/-- Whether the expression can be assigned to: an identifier, a member or an index. -/
def isTarget : Expr → Bool
  | .ident _ | .member .. | .index .. => true
  | _ => false

/-! ## Lists and brackets -/

/-- Closing brackets. -/
def closers : List Token :=
  [.mark ")", .mark "]", .mark "\x7d"]

/-- Takes the given token off the front. -/
def expect (t : Token) : List Token → Option (List Token)
  | [] => none
  | u :: rest => if u = t then some rest else none

/-- Takes a word off the front. -/
def anyWord : Parser String
  | .word name :: rest => some (name, rest)
  | _ => none

/-- At least one item, with commas between the items; at most `n` of them. -/
def separated {α : Type} (item : Parser α) : Nat → Parser (List α)
  | 0, _ => none
  | n + 1, tokens => do
    let (first, rest) ← item tokens
    match expect (.mark ",") rest with
    | none => return ([first], rest)
    | some rest =>
      let (others, rest) ← separated item n rest
      return (first :: others, rest)

/-- Items up to a closing bracket, possibly none. -/
def listUpTo {α : Type} (item : Parser α) (close : Token) : Parser (List α) := fun tokens =>
  match expect close tokens with
  | some rest => some ([], rest)
  | none => do
    let (items, rest) ← separated item tokens.length tokens
    return (items, ← expect close rest)

section Levels

variable (inner : Parser Expr)

/-- An expression, or several with commas between them. -/
def expression : Parser Expr := fun tokens => do
  match ← separated inner tokens.length tokens with
  | ([e], rest) => return (e, rest)
  | (items, rest) => return (.comma items, rest)

/-- `name: value`; the name may be a string literal. -/
def property : Parser Property
  | .word name :: rest | .literal name :: rest => do
    let (value, rest) ← inner (← expect (.mark ":") rest)
    return (.mk name value, rest)
  | _ => none

/-- Identifiers, constants, literals, and expressions in brackets. -/
def primary [Lexis] : Parser Expr
  | [] => none
  | .word name :: rest =>
    match constants.lookup name with
    | some e => some (e, rest)
    | none => if name ∈ reserved then none else some (.ident name, rest)
  | .numeral text :: rest => (Lexis.value text).map fun value => (.number value, rest)
  | .literal value :: rest => some (.string value, rest)
  | .mark m :: rest =>
    if m = "(" then do
      let (e, rest) ← expression inner rest
      return (e, ← expect (.mark ")") rest)
    else if m = "[" then do
      let (items, rest) ← listUpTo inner (.mark "]") rest
      return (.array items, rest)
    else if m = "\x7b" then do
      let (properties, rest) ← listUpTo (property inner) (.mark "\x7d") rest
      return (.object properties, rest)
    else none

/-- What follows an object: members, indexes and, if allowed, arguments of calls; at most `n` of
them. -/
def suffixes (calls : Bool) : Nat → Expr → Parser Expr
  | 0, e, tokens => some (e, tokens)
  | _ + 1, e, [] => some (e, [])
  | n + 1, e, t :: rest =>
    if t = .mark "." then do
      let (name, rest) ← anyWord rest
      suffixes calls n (.member e name) rest
    else if t = .mark "[" then do
      let (key, rest) ← expression inner rest
      suffixes calls n (.index e key) (← expect (.mark "]") rest)
    else if t = .mark "(" ∧ calls then do
      let (arguments, rest) ← listUpTo inner (.mark ")") rest
      suffixes calls n (.call e arguments) rest
    else some (e, t :: rest)

/-- A primary expression, or `new` with a constructor and its arguments.  The constructor has
members and indexes but no calls: the first arguments belong to `new`. -/
def head [Lexis] : Parser Expr
  | [] => none
  | t :: rest =>
    if t = .word "new" then do
      let (constructor, rest) ← head rest
      let (constructor, rest) ← suffixes inner false rest.length constructor rest
      let (arguments, rest) ← listUpTo inner (.mark ")") (← expect (.mark "(") rest)
      return (.new constructor arguments, rest)
    else primary inner (t :: rest)

/-- An object with what follows it. -/
def access [Lexis] (calls : Bool) : Parser Expr := fun tokens => do
  let (e, rest) ← head inner tokens
  suffixes inner calls rest.length e rest

/-- `x++` and `x--`. -/
def postfixed [Lexis] : Parser Expr := fun tokens => do
  let (e, rest) ← access inner true tokens
  match rest with
  | [] => return (e, [])
  | t :: behind =>
    match updates.lookup t with
    | some op => if isTarget e then return (.update op e, behind) else none
    | none => return (e, t :: behind)

/-- Operators in front of their operand. -/
def unary [Lexis] : Parser Expr
  | [] => none
  | t :: rest =>
    match prefixes.lookup t with
    | some op => do
      let (e, rest) ← unary rest
      if op.isUpdate && !isTarget e then none else return (.unary op e, rest)
    | none => postfixed inner (t :: rest)

/-- Operators of one level behind an operand; at most `n` of them. -/
def chain (table : Table) (operand : Parser Expr) : Nat → Expr → Parser Expr
  | 0, left, tokens => some (left, tokens)
  | _ + 1, left, [] => some (left, [])
  | n + 1, left, t :: rest =>
    match table.lookup t with
    | some op => do
      let (right, rest) ← operand rest
      chain table operand n (.binary op left right) rest
    | none => some (left, t :: rest)

/-- Operators of one level, grouped to the left. -/
def leftGrouped (table : Table) (operand : Parser Expr) : Parser Expr := fun tokens => do
  let (left, rest) ← operand tokens
  chain table operand rest.length left rest

/-- Binary operators of the given levels. -/
def binary [Lexis] : List Table → Parser Expr
  | [] => unary inner
  | table :: tighter => leftGrouped table (binary tighter)

/-- Conjunctions. -/
def conjunction [Lexis] : Parser Expr :=
  leftGrouped conjunctions (binary inner levels)

/-- Disjunctions of conjunctions, or operands of `??`; the two do not mix. -/
def shortCircuit [Lexis] : Parser Expr := fun tokens => do
  let (_, rest) ← binary inner levels tokens
  match expect (.mark "??") rest with
  | some _ => leftGrouped coalescings (binary inner levels) tokens
  | none => leftGrouped disjunctions (conjunction inner) tokens

/-- Conditionals. -/
def conditional [Lexis] : Parser Expr := fun tokens => do
  let (condition, rest) ← shortCircuit inner tokens
  match expect (.mark "?") rest with
  | none => return (condition, rest)
  | some rest =>
    let (whenTrue, rest) ← inner rest
    let (whenFalse, rest) ← inner (← expect (.mark ":") rest)
    return (.conditional condition whenTrue whenFalse, rest)

/-- Assignments, which group to the right. -/
def assignmentWith [Lexis] : Parser Expr := fun tokens => do
  let (e, rest) ← conditional inner tokens
  match rest with
  | [] => return (e, [])
  | t :: behind =>
    match assignments.lookup t with
    | some op =>
      if isTarget e then
        let (value, rest) ← inner behind
        return (.assign op e value, rest)
      else none
    | none => return (e, t :: behind)

end Levels

/-- An expression without commas, with brackets nested to at most the given depth. -/
def assignment [Lexis] : Nat → Parser Expr
  | 0 => fun _ => none
  | depth + 1 => assignmentWith (assignment depth)

/-- The expression that a text is, read as a whole. -/
def parse [Lexis] (text : String) : Option Expr := do
  let tokens ← Token.lex text.toList
  let (e, rest) ← expression (assignment (tokens.length + 1)) tokens
  if rest.isEmpty then some e else none

end Grammar

end ScriptCompiler.Script
