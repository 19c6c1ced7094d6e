import ScriptCompiler.Options.Basic
import ScriptCompiler.Toml.Document
import ScriptCompiler.Toml.StringForm

/-!
# Options in a configuration file

Options stand in the table `compiler` of a configuration file.  A missing option has its default,
and keys of another meaning are ignored.  Instead of a table, the values may be given as an array
in the order of the options.
-/

namespace ScriptCompiler

/-- Why options cannot be loaded. -/
inductive OptionsError where
  /-- The file cannot be read. -/
  | ioError
  /-- The text is no configuration file, or an option has a value of another type. -/
  | parseError
  | validationError (option : InvalidOption)
deriving DecidableEq, Repr

namespace Options

open Toml

/-- A text. -/
def stringOf? : Value → Option String
  | .string s => some s
  | _ => none

/-- A truth value. -/
def booleanOf? : Value → Option Bool
  | .boolean b => some b
  | _ => none

/-- A line separator: its word, or a table with the word as its only key and nothing behind it. -/
def separatorOf? : Value → Option LineSeparator
  | .string s => LineSeparator.ofName? s
  | .table _ [(name, .table _ [])] | .table _ [(name, .array [])] => LineSeparator.ofName? name
  | _ => none

/-- The options whose values a lookup gives. -/
def ofLookup? (find : String → Nat → Option Value) : Option Options := do
  let defaults : Options := {}
  let read {α : Type} (of? : Value → Option α) (name : String) (i : Nat) (default : α) : Option α :=
    match find name i with
    | some v => of? v
    | none => some default
  return {
    lineSeparator := ← read separatorOf? "line_separator" 0 defaults.lineSeparator
    referenceField := ← read stringOf? "reference_field" 1 defaults.referenceField
    temporaryPrefix := ← read stringOf? "temporary_prefix" 2 defaults.temporaryPrefix
    warningsAsErrors := ← read booleanOf? "warnings_as_errors" 3 defaults.warningsAsErrors
    indent := ← read stringOf? "indent" 4 defaults.indent }

/-- The options of a value.  A date holds no option and leaves all of them at their defaults. -/
def ofValue? : Value → Option Options
  | .table _ entries => ofLookup? fun name _ => entries.lookup name
  | .array items => ofLookup? fun _ i => items[i]?
  | .tables elements => ofLookup? fun _ i => (elements[i]?).map (.table .header)
  | .datetime _ => some {}
  | .string _ | .boolean _ | .integer _ | .float _ => none

/-- The options of a configuration text. -/
def ofText (s : String) : Except OptionsError Options := do
  let some entries := parse? s | throw .parseError
  let some options := ((entries.lookup "compiler").elim (some {}) ofValue?) | throw .parseError
  match options.invalid? with
  | some option => throw (.validationError option)
  | none => return options

/-- The options in a file with the given content, which is missing if the file cannot be read. -/
def ofFile (content : Option String) : Except OptionsError Options :=
  match content with
  | some s => ofText s
  | none => .error .ioError

/-! ## Writing -/

/-- The options as a configuration text. -/
def text (o : Options) : String :=
  "[compiler]\n"
    ++ "line_separator = " ++ stringText o.lineSeparator.name ++ "\n"
    ++ "reference_field = " ++ stringText o.referenceField ++ "\n"
    ++ "temporary_prefix = " ++ stringText o.temporaryPrefix ++ "\n"
    ++ "warnings_as_errors = " ++ (if o.warningsAsErrors then "true" else "false") ++ "\n"
    ++ "indent = " ++ stringText o.indent ++ "\n"

end Options

end ScriptCompiler
