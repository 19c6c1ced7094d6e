import ScriptCompiler.Number.Shortest
import ScriptCompiler.Script.Tree
import ScriptCompiler.Text.Identifier
import ScriptCompiler.Text.Quoted

/-!
# The text of a script

One statement a line, blocks indented, and parentheses exactly where the grammar needs them.  An
operand is written into a position that asks for a least binding strength; an operand that binds
looser is enclosed.  Two positions ask for more: the object of a member access or a call encloses
number literals and functions, and the operands of `??` enclose `&&` and `||`, and the other way
round.

Only `Expr.core` and `Stmt.inline` recurse; what encloses or indents them is decided without
looking further into the tree.
-/

namespace ScriptCompiler.Script

/-- How a script is laid out: one unit of indentation and the line separator. -/
structure Layout where
  indent : String := "    "
  newline : String := "\n"
deriving DecidableEq, Repr, Inhabited

namespace Layout

/-- The white space in front of a line at the given depth. -/
def lead (layout : Layout) (depth : Nat) : String :=
  String.join (List.replicate depth layout.indent)

/-- A line separator and the indentation of the next line. -/
def newLine (layout : Layout) (depth : Nat) : String :=
  layout.newline ++ layout.lead depth

end Layout

/-- The text in parentheses if `needed`. -/
def enclose (needed : Bool) (text : String) : String :=
  if needed then "(" ++ text ++ ")" else text

namespace Expr

/-- Whether the operand of a position that asks for the strength `least` needs parentheses. -/
def bindsLooser (e : Expr) (least : Nat) : Bool :=
  e.precedence < least

/-- Whether the object of a member access, an index or a call needs parentheses. -/
def needsParensAsTarget : Expr → Bool
  | .number _ | .function .. => true
  | e => e.bindsLooser 18

/-- Whether `e` is a binary operation that may not stand next to `op` without parentheses. -/
def mixesWith (op : BinaryOp) : Expr → Bool
  | .binary inner _ _ => op.mixesCoalescing inner
  | _ => false

/-- Whether the operand of a binary operator needs parentheses, in a position of strength
`least`. -/
def needsParensBeside (op : BinaryOp) (least : Nat) (e : Expr) : Bool :=
  e.mixesWith op || e.bindsLooser least

/-- Whether a constructor holds a call whose arguments would be taken for those of `new`. -/
def holdsCall : Expr → Bool
  | .call .. => true
  | .member target _ => target.holdsCall
  | .index target _ => target.holdsCall
  | _ => false

/-- Whether the operand of a sign would run into it without a blank. -/
def runsInto (op : UnaryOp) : Expr → Bool
  | .unary inner _ => op.runsInto inner
  | .number n => op == .negate && n.isSignNegative
  | _ => false

/-- Whether the expression is a function. -/
def isFunction : Expr → Bool
  | .function .. => true
  | _ => false

/-- Whether the first token of the text would be read as the start of a block or of a function
declaration if a statement began with it. -/
def opensLikeStatement : Expr → Bool
  | .function .. | .object _ => true
  | .member target _ => !target.isFunction && target.opensLikeStatement
  | .index target _ => !target.isFunction && target.opensLikeStatement
  | .call target _ => !target.isFunction && target.opensLikeStatement
  | .binary _ left _ => left.opensLikeStatement
  | .assign _ target _ => target.opensLikeStatement
  | .update _ operand => operand.opensLikeStatement
  | .conditional condition _ _ => condition.opensLikeStatement
  | .comma (first :: _) => first.opensLikeStatement
  | _ => false

end Expr

/-- The name of a property: raw if it is an identifier, a string literal otherwise. -/
def propertyKey (name : String) : String :=
  if Text.isIdentifier name then name else Text.literal name

/-- The text of a comment; a line feed asks for the block form. -/
def commentText (text : String) : String :=
  if text.toList.contains '\n' then "/*" ++ text ++ "*/" else "//" ++ text

/-- The token between the two sides of an assignment. -/
def assignToken : Option BinaryOp → String
  | none => "="
  | some op => op.token ++ "="

mutual

/-- The text of an expression without enclosing parentheses, inside a line at the given depth. -/
def Expr.core (layout : Layout) (depth : Nat) : Expr → String
  | .null => "null"
  | .boolean value => if value then "true" else "false"
  | .number value => value.text
  | .string value => Text.literal value
  | .ident name => name
  | .this => "this"
  | .member target name =>
    enclose target.needsParensAsTarget (target.core layout depth) ++ "." ++ name
  | .index target key =>
    enclose target.needsParensAsTarget (target.core layout depth)
      ++ "[" ++ key.core layout depth ++ "]"
  | .call target arguments =>
    enclose target.needsParensAsTarget (target.core layout depth)
      ++ "(" ++ ", ".intercalate (itemTexts layout depth arguments) ++ ")"
  | .new constructor arguments =>
    "new "
      ++ enclose constructor.holdsCall
          (enclose (constructor.bindsLooser 18) (constructor.core layout depth))
      ++ "(" ++ ", ".intercalate (itemTexts layout depth arguments) ++ ")"
  | .object [] => "\x7b\x7d"
  | .object properties =>
    "\x7b " ++ ", ".intercalate (propertyTexts layout depth properties) ++ " \x7d"
  | .array items => "[" ++ ", ".intercalate (itemTexts layout depth items) ++ "]"
  | .binary op left right =>
    enclose (left.needsParensBeside op op.precedence) (left.core layout depth)
      ++ " " ++ op.token ++ " "
      ++ enclose (right.needsParensBeside op (op.precedence + 1)) (right.core layout depth)
  | .unary op operand =>
    op.token ++ (if operand.runsInto op then " " else "")
      ++ enclose (operand.bindsLooser 15) (operand.core layout depth)
  | .update op operand =>
    enclose (operand.bindsLooser 17) (operand.core layout depth) ++ op.token
  | .assign op target value =>
    enclose (target.bindsLooser 16) (target.core layout depth)
      ++ " " ++ assignToken op ++ " "
      ++ enclose (value.bindsLooser 2) (value.core layout depth)
  | .conditional condition whenTrue whenFalse =>
    enclose (condition.bindsLooser 4) (condition.core layout depth)
      ++ " ? " ++ enclose (whenTrue.bindsLooser 2) (whenTrue.core layout depth)
      ++ " : " ++ enclose (whenFalse.bindsLooser 2) (whenFalse.core layout depth)
  | .function name parameters body =>
    "function" ++ (match name with | some n => " " ++ n | none => "")
      ++ "(" ++ ", ".intercalate parameters ++ ") " ++ blockText layout depth body
  | .comma items => ", ".intercalate (itemTexts layout depth items)

/-- The texts of the items of a list; a comma expression among them is enclosed. -/
def itemTexts (layout : Layout) (depth : Nat) : List Expr → List String
  | [] => []
  | e :: rest =>
    enclose (e.bindsLooser 2) (e.core layout depth) :: itemTexts layout depth rest

/-- The texts of the properties of an object literal. -/
def propertyTexts (layout : Layout) (depth : Nat) : List Property → List String
  | [] => []
  | .mk name value :: rest =>
    (propertyKey name ++ ": " ++ enclose (value.bindsLooser 2) (value.core layout depth))
      :: propertyTexts layout depth rest

/-- The texts of the bindings of a declaration. -/
def bindingTexts (layout : Layout) (depth : Nat) : List Binding → List String
  | [] => []
  | .mk name none :: rest => name :: bindingTexts layout depth rest
  | .mk name (some value) :: rest =>
    (name ++ " = " ++ enclose (value.bindsLooser 2) (value.core layout depth))
      :: bindingTexts layout depth rest

/-- A statement from the current position on, without its line separator. -/
def Stmt.inline (layout : Layout) (depth : Nat) : Stmt → String
  | .comment text => commentText text
  | .declare bindings => "var " ++ ", ".intercalate (bindingTexts layout depth bindings) ++ ";"
  | .expr value => enclose value.opensLikeStatement (value.core layout depth) ++ ";"
  | .block body => blockText layout depth body
  | .return none => "return;"
  | .return (some value) => "return " ++ value.core layout depth ++ ";"
  | .branch condition thenBranch none =>
    "if (" ++ condition.core layout depth ++ ")"
      ++ (if thenBranch.isBlock then " " ++ thenBranch.inline layout depth
          else layout.newLine (depth + 1) ++ thenBranch.inline layout (depth + 1))
  | .branch condition thenBranch (some elseBranch) =>
    "if (" ++ condition.core layout depth ++ ")"
      ++ (if thenBranch.isBlock then " " ++ thenBranch.inline layout depth ++ " "
          else layout.newLine (depth + 1) ++ thenBranch.inline layout (depth + 1)
            ++ layout.newLine depth)
      ++ "else"
      ++ (if elseBranch.isBlock || elseBranch.isBranch then " " ++ elseBranch.inline layout depth
          else layout.newLine (depth + 1) ++ elseBranch.inline layout (depth + 1))
  | .whileLoop condition body =>
    "while (" ++ condition.core layout depth ++ ")"
      ++ (if body.isBlock then " " ++ body.inline layout depth
          else layout.newLine (depth + 1) ++ body.inline layout (depth + 1))
  | .doWhile body condition =>
    "do"
      ++ (if body.isBlock then " " ++ body.inline layout depth ++ " "
          else layout.newLine (depth + 1) ++ body.inline layout (depth + 1)
            ++ layout.newLine depth)
      ++ "while (" ++ condition.core layout depth ++ ");"
  | .break => "break;"
  | .continue => "continue;"
  | .throw value => "throw " ++ value.core layout depth ++ ";"
  | .empty => ";"

/-- A block in braces. -/
def blockText (layout : Layout) (depth : Nat) : List Stmt → String
  | [] => "\x7b\x7d"
  | first :: rest =>
    "\x7b" ++ layout.newline
      ++ layout.lead (depth + 1) ++ first.inline layout (depth + 1) ++ layout.newline
      ++ linesText layout (depth + 1) rest
      ++ layout.lead depth ++ "\x7d"

/-- Statements on lines of their own. -/
def linesText (layout : Layout) (depth : Nat) : List Stmt → String
  | [] => ""
  | s :: rest =>
    layout.lead depth ++ s.inline layout depth ++ layout.newline ++ linesText layout depth rest

end

namespace Layout

/-- The text of one expression. -/
def exprText (layout : Layout) (e : Expr) : String :=
  e.core layout 0

/-- The text of one statement, with its line separator. -/
def stmtText (layout : Layout) (s : Stmt) : String :=
  s.inline layout 0 ++ layout.newline

/-- The text of a list of statements, one a line. -/
def bodyText (layout : Layout) (body : List Stmt) : String :=
  linesText layout 0 body

end Layout

end ScriptCompiler.Script
