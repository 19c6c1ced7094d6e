/-!
# Messages

A message has a severity, a stable code and a format with numbered placeholders.  The catalog
holds every message that compiling a body can report.
-/

namespace ScriptCompiler

/-- How serious a message is. -/
inductive Severity where
  | info | warning | error
deriving DecidableEq, Repr, Inhabited

namespace Severity

/-- Every severity, from the mildest on. -/
def all : List Severity :=
  [info, warning, error]

/-- The word for the severity. -/
def text : Severity → String
  | info => "info"
  | warning => "warning"
  | error => "error"

/-- An error in place of a warning, if warnings are promoted. -/
def promote (s : Severity) (promoted : Bool) : Severity :=
  if promoted && s == warning then error else s

end Severity

/-- An entry of the catalog. -/
structure Message where
  severity : Severity
  code : String
  format : String
deriving DecidableEq, Repr, Inhabited

namespace Message

/-- The number that an optional plus sign and decimal digits denote, if it fits into 64 bits. -/
def placeholderIndex? (digits : List Char) : Option Nat :=
  let digits := if digits.head? = some '+' then digits.tail else digits
  if digits.isEmpty || !digits.all Char.isDigit then none
  else
    let n := digits.foldl (fun n c => 10 * n + (c.toNat - '0'.toNat)) 0
    if n < Nat.pow 2 64 then some n else none

/-- The argument that a placeholder stands for, given the text behind its opening brace, and the
number of characters up to its closing brace. -/
def placeholder? (arguments : List String) (rest : List Char) : Option (String × Nat) :=
  let inner := rest.takeWhile (· != '\x7d')
  if inner.length = rest.length then none
  else do
    let argument ← arguments[← placeholderIndex? inner]?
    return (argument, inner.length + 1)

/-- Fills the placeholders of a format, after leaving out its first `skip` characters.  A brace
that opens no placeholder with an argument stands for itself. -/
def fill (arguments : List String) : Nat → List Char → List Char
  | _, [] => []
  | skip + 1, _ :: rest => fill arguments skip rest
  | 0, c :: rest =>
    if c = '\x7b' then
      match placeholder? arguments rest with
      | some (argument, skip) => argument.toList ++ fill arguments skip rest
      | none => c :: fill arguments 0 rest
    else c :: fill arguments 0 rest

/-- The text of the message for the given arguments. -/
def text (m : Message) (arguments : List String) : String :=
  String.ofList (fill arguments 0 m.format.toList)

/-- A source construct that is not lowered. -/
def unsupportedConstruct : Message where
  severity := .error
  code := "SC7001"
  format := "Unsupported construct: \x7b0\x7d."

/-- A defect of the compiler or of its input. -/
def internalError : Message where
  severity := .error
  code := "SC7999"
  format := "Internal error: \x7b0\x7d"

end Message

end ScriptCompiler
