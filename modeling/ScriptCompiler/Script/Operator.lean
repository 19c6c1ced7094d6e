/-!
# Operators of the script

Each operator has its token; binary operators also have a binding strength, higher binding
tighter.
-/

namespace ScriptCompiler.Script

/-- Binary operators. -/
inductive BinaryOp where
  | add | subtract | multiply | divide | modulo
  | bitwiseAnd | bitwiseOr | bitwiseXor
  | leftShift | rightShift | unsignedRightShift
  | equal | notEqual | strictEqual | strictNotEqual
  | lessThan | lessEqual | greaterThan | greaterEqual
  | logicalAnd | logicalOr | nullCoalescing
deriving DecidableEq, Repr, Inhabited

namespace BinaryOp

/-- Every binary operator, in order of declaration. -/
def all : List BinaryOp :=
  [add, subtract, multiply, divide, modulo, bitwiseAnd, bitwiseOr, bitwiseXor, leftShift,
   rightShift, unsignedRightShift, equal, notEqual, strictEqual, strictNotEqual, lessThan,
   lessEqual, greaterThan, greaterEqual, logicalAnd, logicalOr, nullCoalescing]

/-- The token of the operator. -/
def token : BinaryOp → String
  | add => "+"
  | subtract => "-"
  | multiply => "*"
  | divide => "/"
  | modulo => "%"
  | bitwiseAnd => "&"
  | bitwiseOr => "|"
  | bitwiseXor => "^"
  | leftShift => "<<"
  | rightShift => ">>"
  | unsignedRightShift => ">>>"
  | equal => "=="
  | notEqual => "!="
  | strictEqual => "==="
  | strictNotEqual => "!=="
  | lessThan => "<"
  | lessEqual => "<="
  | greaterThan => ">"
  | greaterEqual => ">="
  | logicalAnd => "&&"
  | logicalOr => "||"
  | nullCoalescing => "??"

/-- Binding strength of the operator. -/
def precedence : BinaryOp → Nat
  | nullCoalescing | logicalOr => 4
  | logicalAnd => 5
  | bitwiseOr => 6
  | bitwiseXor => 7
  | bitwiseAnd => 8
  | equal | notEqual | strictEqual | strictNotEqual => 9
  | lessThan | lessEqual | greaterThan | greaterEqual => 10
  | leftShift | rightShift | unsignedRightShift => 11
  | add | subtract => 12
  | multiply | divide | modulo => 13

/-- Whether the operator is the conjunction or the disjunction. -/
def isLogical : BinaryOp → Bool
  | logicalAnd | logicalOr => true
  | _ => false

/-- Whether one of two operators coalesces nulls and the other one is logical.  The grammar of the
script does not let such a pair stand together without parentheses. -/
def mixesCoalescing (outer inner : BinaryOp) : Bool :=
  (outer == nullCoalescing && inner.isLogical) || (outer.isLogical && inner == nullCoalescing)

end BinaryOp

/-- Operators that stand in front of their operand. -/
inductive UnaryOp where
  | negate | plus | not | bitwiseNot | preIncrement | preDecrement | typeOf
deriving DecidableEq, Repr, Inhabited

namespace UnaryOp

/-- Every unary operator, in order of declaration. -/
def all : List UnaryOp :=
  [negate, plus, not, bitwiseNot, preIncrement, preDecrement, typeOf]

/-- The token of the operator; the one keyword carries the blank that must follow it. -/
def token : UnaryOp → String
  | negate => "-"
  | plus => "+"
  | not => "!"
  | bitwiseNot => "~"
  | preIncrement => "++"
  | preDecrement => "--"
  | typeOf => "typeof "

/-- Whether the operator writes its operand. -/
def isUpdate : UnaryOp → Bool
  | preIncrement | preDecrement => true
  | _ => false

/-- Whether two operators side by side would run into another token: `-` before `-` or `--`, and
`+` before `+` or `++`. -/
def runsInto (outer inner : UnaryOp) : Bool :=
  match outer, inner with
  | negate, negate | negate, preDecrement | preDecrement, negate | preDecrement, preDecrement => true
  | plus, plus | plus, preIncrement | preIncrement, plus | preIncrement, preIncrement => true
  | _, _ => false

end UnaryOp

/-- Operators that stand behind their operand. -/
inductive UpdateOp where
  | increment | decrement
deriving DecidableEq, Repr, Inhabited

/-- The token of the operator. -/
def UpdateOp.token : UpdateOp → String
  | .increment => "++"
  | .decrement => "--"

end ScriptCompiler.Script
