import ScriptCompiler.Number.Double
import ScriptCompiler.Source.Comment
import ScriptCompiler.Source.Position
import ScriptCompiler.Source.TypeRef

/-!
# The resolved source tree

Statements and expressions of one member body as a front end hands them over: every expression
carries its type and span, locals are bound to variables, member accesses to members of the
program, and lambdas to their descriptors.

A construct that is never lowered is kept as its kind and span only.

Types and members are identified by positions without bound.  Positions of 32 bits are the same as
long as a program has at most `2 ^ 32` types and as many members.
-/

namespace ScriptCompiler

/-- Identity of a member of the program: its position in order of creation. -/
structure MemberId where
  index : Nat
deriving DecidableEq, Repr, Inhabited

/-- Identity of a type of the program: its position in order of creation. -/
structure TypeId where
  index : Nat
deriving DecidableEq, Repr, Inhabited

/-- Identity of a local variable or parameter of a body. -/
structure VariableId where
  index : Nat
deriving DecidableEq, Repr, Inhabited

/-- Identity of a lambda of a body. -/
structure LambdaId where
  index : Nat
deriving DecidableEq, Repr, Inhabited

namespace Source

/-- Constants known while compiling. -/
inductive Constant where
  | null
  | boolean (value : Bool)
  | int (value : Int)
  | float (value : Double)
  | string (value : String)
  | char (value : Char)
deriving DecidableEq, Repr, Inhabited

/-- Binary operators. -/
inductive BinaryOp where
  | add | subtract | multiply | divide | modulo
  | bitwiseAnd | bitwiseOr | bitwiseXor
  | leftShift | rightShift
  | equal | notEqual
  | lessThan | lessEqual | greaterThan | greaterEqual
  | logicalAnd | logicalOr | nullCoalescing
deriving DecidableEq, Repr, Inhabited

namespace BinaryOp

/-- Every binary operator, in order of declaration. -/
def all : List BinaryOp :=
  [add, subtract, multiply, divide, modulo, bitwiseAnd, bitwiseOr, bitwiseXor, leftShift,
   rightShift, equal, notEqual, lessThan, lessEqual, greaterThan, greaterEqual, logicalAnd,
   logicalOr, nullCoalescing]

/-- Whether the right operand is evaluated only if the left one asks for it. -/
def isShortCircuit : BinaryOp → Bool
  | logicalAnd | logicalOr | nullCoalescing => true
  | _ => false

end BinaryOp

/-- Unary operators. -/
inductive UnaryOp where
  | negate | plus | not | bitwiseNot
deriving DecidableEq, Repr, Inhabited

/-- Every unary operator, in order of declaration. -/
def UnaryOp.all : List UnaryOp :=
  [.negate, .plus, .not, .bitwiseNot]

/-- The forms of increment and decrement. -/
inductive IncrementKind where
  | preIncrement | preDecrement | postIncrement | postDecrement
deriving DecidableEq, Repr, Inhabited

namespace IncrementKind

/-- Every form, in order of declaration. -/
def all : List IncrementKind :=
  [preIncrement, preDecrement, postIncrement, postDecrement]

/-- Whether the expression yields the value before the update. -/
def isPost : IncrementKind → Bool
  | postIncrement | postDecrement => true
  | _ => false

/-- Whether the update adds one. -/
def isIncrement : IncrementKind → Bool
  | preIncrement | postIncrement => true
  | _ => false

end IncrementKind

/-- How an argument is passed. -/
inductive ArgumentMode where
  | value | ref | out
deriving DecidableEq, Repr, Inhabited

/-- Whether the argument hands over a container instead of a value. -/
def ArgumentMode.isReference : ArgumentMode → Bool
  | .value => false
  | .ref | .out => true

/-- What every expression carries: its type and its place in the source. -/
structure Info where
  type : TypeRef := .int32
  span : Span := {}
deriving Repr, Inhabited

/-- Constructs that are never lowered. -/
inductive Unsupported where
  | forLoop | foreach | switch | tryBlock | lock | usingBlock | goto | labeled | yield
  | unsafeBlock | fixed
deriving DecidableEq, Repr, Inhabited

namespace Unsupported

/-- Every such construct, in order of declaration. -/
def all : List Unsupported :=
  [forLoop, foreach, switch, tryBlock, lock, usingBlock, goto, labeled, yield, unsafeBlock, fixed]

/-- The word for the construct in messages. -/
def name : Unsupported → String
  | forLoop => "for"
  | foreach => "foreach"
  | switch => "switch"
  | tryBlock => "try"
  | lock => "lock"
  | usingBlock => "using"
  | goto => "goto"
  | labeled => "labeled statement"
  | yield => "yield"
  | unsafeBlock => "unsafe"
  | fixed => "fixed"

end Unsupported

mutual

/-- A resolved expression. -/
inductive Expr where
  | constant (info : Info) (value : Constant)
  /-- A local variable or parameter. -/
  | localVar (info : Info) (id : VariableId)
  | this (info : Info)
  /-- A field; without a target it is reached through its type or through `this`. -/
  | field (info : Info) (target : Option Expr) (member : MemberId)
  /-- A property; without a target as for a field. -/
  | property (info : Info) (target : Option Expr) (member : MemberId)
  /-- `target[arguments]` through an indexer. -/
  | indexer (info : Info) (target : Expr) (member : MemberId) (arguments : List Argument)
  /-- `array[index]` of an array. -/
  | element (info : Info) (array : Expr) (index : Expr)
  /-- A method call; without a target as for a field. -/
  | call (info : Info) (target : Option Expr) (method : MemberId) (arguments : List Argument)
  /-- `target(arguments)` of a delegate. -/
  | delegateCall (info : Info) (target : Expr) (arguments : List Argument)
  /-- `new T(arguments)` -/
  | create (info : Info) (constructor : MemberId) (arguments : List Argument)
  /-- A new array with the given elements. -/
  | createArray (info : Info) (elements : List Expr)
  | binary (info : Info) (op : BinaryOp) (left right : Expr)
  | unary (info : Info) (op : UnaryOp) (operand : Expr)
  /-- `target = value`, or `target op= value`. -/
  | assign (info : Info) (op : Option BinaryOp) (target value : Expr)
  | increment (info : Info) (kind : IncrementKind) (target : Expr)
  | conditional (info : Info) (condition whenTrue whenFalse : Expr)
  | lambda (info : Info) (id : LambdaId) (parameters : List VariableId) (body : LambdaBody)

/-- An argument with its mode. -/
inductive Argument where
  | mk (mode : ArgumentMode) (value : Expr)

/-- The body of a lambda. -/
inductive LambdaBody where
  | expr (value : Expr)
  | block (body : List Stmt)

/-- One declarator: the variable, its name in the source and its initial value. -/
inductive Declarator where
  | mk (id : VariableId) (name : String) (initializer : Option Expr) (span : Span)

/-- A resolved statement. -/
inductive Stmt where
  | comment (span : Span) (kind : CommentKind) (content : String)
  | declare (span : Span) (declarators : List Declarator)
  | expr (span : Span) (value : Expr)
  | block (span : Span) (body : List Stmt)
  /-- A block with overflow checks on; they have no counterpart in the script. -/
  | checked (span : Span) (body : List Stmt)
  /-- A block with overflow checks off. -/
  | unchecked (span : Span) (body : List Stmt)
  | return (span : Span) (value : Option Expr)
  | branch (span : Span) (condition : Expr) (thenBranch : Stmt) (elseBranch : Option Stmt)
  | whileLoop (span : Span) (condition : Expr) (body : Stmt)
  | doWhile (span : Span) (body : Stmt) (condition : Expr)
  | break (span : Span)
  | continue (span : Span)
  /-- Without a value it throws the current error again. -/
  | throw (span : Span) (value : Option Expr)
  | empty (span : Span)
  | unsupported (span : Span) (construct : Unsupported)

end

deriving instance Inhabited for Expr, Argument, LambdaBody, Declarator, Stmt

namespace Expr

/-- What the expression carries. -/
def info : Expr → Info
  | .constant i _ | .localVar i _ | .this i | .field i _ _ | .property i _ _ | .indexer i _ _ _
  | .element i _ _ | .call i _ _ _ | .delegateCall i _ _ | .create i _ _ | .createArray i _
  | .binary i _ _ _ | .unary i _ _ | .assign i _ _ _ | .increment i _ _ | .conditional i _ _ _
  | .lambda i _ _ _ => i

/-- The type of the expression. -/
def type (e : Expr) : TypeRef := e.info.type

/-- Where the expression stands. -/
def span (e : Expr) : Span := e.info.span

/-- Whether the expression is a constant. -/
def isConstant : Expr → Bool
  | .constant .. => true
  | _ => false

end Expr

namespace Stmt

/-- Where the statement stands. -/
def span : Stmt → Span
  | .comment s _ _ | .declare s _ | .expr s _ | .block s _ | .checked s _ | .unchecked s _
  | .return s _ | .branch s _ _ _ | .whileLoop s _ _ | .doWhile s _ _ | .break s | .continue s
  | .throw s _ | .empty s | .unsupported s _ => s

/-- The word for the statement in messages. -/
def constructName : Stmt → String
  | .comment .. => "comment"
  | .declare .. => "variable declaration"
  | .expr .. => "expression statement"
  | .block .. => "block"
  | .checked .. => "checked"
  | .unchecked .. => "unchecked"
  | .return .. => "return"
  | .branch .. => "if"
  | .whileLoop .. => "while"
  | .doWhile .. => "do"
  | .break _ => "break"
  | .continue _ => "continue"
  | .throw .. => "throw"
  | .empty _ => "empty statement"
  | .unsupported _ construct => construct.name

end Stmt

end Source

end ScriptCompiler
