import ScriptCompiler.Number.Double
import ScriptCompiler.Script.Operator

/-!
# The script tree

Statements and expressions of the dynamic target language.  The tree is plain data: lowering
builds it from the leaves up and the printer writes it down.
-/

namespace ScriptCompiler.Script

mutual

/-- An expression. -/
inductive Expr where
  | null
  | boolean (value : Bool)
  | number (value : Double)
  | string (value : String)
  | ident (name : String)
  | this
  /-- `target.name` -/
  | member (target : Expr) (name : String)
  /-- `target[key]` -/
  | index (target : Expr) (key : Expr)
  /-- `target(arguments)` -/
  | call (target : Expr) (arguments : List Expr)
  /-- `new constructor(arguments)` -/
  | new (constructor : Expr) (arguments : List Expr)
  /-- An object literal with its properties in order. -/
  | object (properties : List Property)
  /-- `[items]` -/
  | array (items : List Expr)
  | binary (op : BinaryOp) (left right : Expr)
  | unary (op : UnaryOp) (operand : Expr)
  /-- `operand++` or `operand--` -/
  | update (op : UpdateOp) (operand : Expr)
  /-- `target = value`, or `target op= value` -/
  | assign (op : Option BinaryOp) (target value : Expr)
  /-- `condition ? whenTrue : whenFalse` -/
  | conditional (condition whenTrue whenFalse : Expr)
  | function (name : Option String) (parameters : List String) (body : List Stmt)
  /-- `items` evaluated in order; the last one gives the value. -/
  | comma (items : List Expr)

/-- One `name: value` of an object literal. -/
inductive Property where
  | mk (name : String) (value : Expr)

/-- One binding of a declaration. -/
inductive Binding where
  | mk (name : String) (initializer : Option Expr)

/-- A statement. -/
inductive Stmt where
  /-- A comment; a text with a line feed is written as a block comment. -/
  | comment (text : String)
  /-- `var a = 1, b;` -/
  | declare (bindings : List Binding)
  | expr (value : Expr)
  | block (body : List Stmt)
  | return (value : Option Expr)
  | branch (condition : Expr) (thenBranch : Stmt) (elseBranch : Option Stmt)
  | whileLoop (condition : Expr) (body : Stmt)
  | doWhile (body : Stmt) (condition : Expr)
  | break
  | continue
  | throw (value : Expr)
  | empty

end

deriving instance Inhabited for Expr, Property, Binding, Stmt
deriving instance Repr for Expr, Property, Binding, Stmt

/-- The name of a property. -/
def Property.name : Property → String
  | .mk name _ => name

/-- The value of a property. -/
def Property.value : Property → Expr
  | .mk _ value => value

/-- The bound name. -/
def Binding.name : Binding → String
  | .mk name _ => name

/-- The initial value of the bound name. -/
def Binding.initializer : Binding → Option Expr
  | .mk _ initializer => initializer

namespace Stmt

/-- `var name = initializer;` -/
def var (name : String) (initializer : Option Expr) : Stmt :=
  .declare [.mk name initializer]

/-- Whether the statement is a block. -/
def isBlock : Stmt → Bool
  | .block _ => true
  | _ => false

/-- Whether the statement is a branch. -/
def isBranch : Stmt → Bool
  | .branch .. => true
  | _ => false

end Stmt

namespace Expr

/-- `left = right` -/
def set (target value : Expr) : Expr :=
  .assign none target value

/-- Whether evaluating the expression has no effect and observes no mutable state. -/
def isPure : Expr → Bool
  | .null | .boolean _ | .number _ | .string _ | .this | .function .. => true
  | _ => false

/-- Whether the expression is the identifier `name`. -/
def isIdent (name : String) : Expr → Bool
  | .ident n => n == name
  | _ => false

/-- Binding strength of the outermost node; higher binds tighter.  A negative literal binds like
the sign in front of it. -/
def precedence : Expr → Nat
  | .comma _ => 1
  | .assign .. => 2
  | .conditional .. => 3
  | .binary op _ _ => op.precedence
  | .unary .. => 15
  | .number n => if n.isSignNegative && !n.isZero then 15 else 20
  | .update .. => 16
  | .new .. => 17
  | .call .. | .member .. | .index .. => 18
  | .function .. => 19
  | _ => 20

end Expr

/-! ## Writes to an identifier -/

mutual

/-- Whether evaluating the expression assigns the identifier `name`.  Function bodies are not
entered: they do not run when the expression is evaluated. -/
def Expr.writes (name : String) : Expr → Bool
  | .assign _ target value =>
    target.isIdent name || target.writes name || value.writes name
  | .unary op operand => (op.isUpdate && operand.isIdent name) || operand.writes name
  | .update _ operand => operand.isIdent name || operand.writes name
  | .member target _ => target.writes name
  | .index target key => target.writes name || key.writes name
  | .call target arguments => target.writes name || anyWrites name arguments
  | .new constructor arguments => constructor.writes name || anyWrites name arguments
  | .object properties => anyPropertyWrites name properties
  | .array items => anyWrites name items
  | .comma items => anyWrites name items
  | .binary _ left right => left.writes name || right.writes name
  | .conditional condition whenTrue whenFalse =>
    condition.writes name || whenTrue.writes name || whenFalse.writes name
  | .null | .boolean _ | .number _ | .string _ | .ident _ | .this | .function .. => false

/-- Whether one of the expressions assigns `name`. -/
def anyWrites (name : String) : List Expr → Bool
  | [] => false
  | e :: rest => e.writes name || anyWrites name rest

/-- Whether the value of one of the properties assigns `name`. -/
def anyPropertyWrites (name : String) : List Property → Bool
  | [] => false
  | .mk _ value :: rest => value.writes name || anyPropertyWrites name rest

end

end ScriptCompiler.Script
