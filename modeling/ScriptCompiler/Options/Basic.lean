import ScriptCompiler.Script.Printer
import ScriptCompiler.Text.Identifier

/-!
# Compiler options

What a user may choose about lowering and output, the check of these choices, and their text in a
configuration file.
-/

namespace ScriptCompiler

/-- The line separators. -/
inductive LineSeparator where
  | lf | crlf
deriving DecidableEq, Repr, Inhabited

namespace LineSeparator

/-- The separator itself. -/
def text : LineSeparator → String
  | lf => "\n"
  | crlf => "\r\n"

/-- The word for the separator in a configuration file. -/
def name : LineSeparator → String
  | lf => "lf"
  | crlf => "crlf"

/-- The separator with the given word. -/
def ofName? (name : String) : Option LineSeparator :=
  if name = "lf" then some lf else if name = "crlf" then some crlf else none

end LineSeparator

/-- Options of a compilation. -/
structure Options where
  /-- Separator of the lines of comments and of printed output. -/
  lineSeparator : LineSeparator := .lf
  /-- Field name of the container of a variable with reference semantics. -/
  referenceField : String := "$"
  /-- What stands before the number in the name of a temporary. -/
  temporaryPrefix : String := "$t"
  /-- Whether warnings are reported as errors. -/
  warningsAsErrors : Bool := false
  /-- One unit of indentation of printed output. -/
  indent : String := "    "
deriving DecidableEq, Repr, Inhabited

/-- Why options are refused. -/
inductive InvalidOption where
  | referenceField (value : String)
  | temporaryPrefix (value : String)
  | indent
deriving DecidableEq, Repr

/-- The text of the refusal. -/
def InvalidOption.message : InvalidOption → String
  | .referenceField value =>
    "Invalid option: reference_field must be an identifier, got '" ++ value ++ "'"
  | .temporaryPrefix value =>
    "Invalid option: temporary_prefix must be an identifier, got '" ++ value ++ "'"
  | .indent => "Invalid option: indent may only contain spaces and tabs"

namespace Options

/-- The first option with a value outside its range. -/
def invalid? (o : Options) : Option InvalidOption :=
  if !Text.isIdentifier o.referenceField then some (.referenceField o.referenceField)
  else if !Text.isIdentifier o.temporaryPrefix then some (.temporaryPrefix o.temporaryPrefix)
  else if !o.indent.toList.all (fun c => c == ' ' || c == '\t') then some .indent
  else none

/-- The layout of printed output. -/
def layout (o : Options) : Script.Layout where
  indent := o.indent
  newline := o.lineSeparator.text

end Options

end ScriptCompiler
