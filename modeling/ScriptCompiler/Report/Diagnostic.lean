import ScriptCompiler.Binary.Bytes
import ScriptCompiler.Report.Reporter

/-!
# Diagnostics

A diagnostic shows a message together with the line of the source that it points at.  A message in
an unknown file names its location in a note instead.
-/

namespace ScriptCompiler

/-- A source file that diagnostics can show. -/
structure SourceFile where
  path : String
  source : String
deriving DecidableEq, Repr, Inhabited

/-- How serious a diagnostic is; a defect is worse than an error. -/
inductive DiagnosticSeverity where
  | bug | error | warning | note
deriving DecidableEq, Repr, Inhabited

/-- The word for the severity. -/
def DiagnosticSeverity.text : DiagnosticSeverity → String
  | .bug => "bug"
  | .error => "error"
  | .warning => "warning"
  | .note => "note"

/-- A marked byte range of a file. -/
structure Label where
  /-- Position of the file among the known ones. -/
  file : Nat
  start : Nat
  stop : Nat
deriving DecidableEq, Repr, Inhabited

/-- A message to be shown. -/
structure Diagnostic where
  severity : DiagnosticSeverity
  code : String
  message : String
  labels : List Label := []
  notes : List String := []
deriving DecidableEq, Repr, Inhabited

namespace Diagnostic

/-- The severity of the diagnostic of a message. -/
def severityOf (m : Reported) : DiagnosticSeverity :=
  if m.isInternalError then .bug
  else
    match m.severity with
    | .error => .error
    | .warning => .warning
    | .info => .note

/-- The diagnostic of a message.  An empty range is not marked. -/
def ofMessage (files : List SourceFile) (m : Reported) : Diagnostic :=
  let span := m.location.span
  let d : Diagnostic := { severity := severityOf m, code := m.code, message := m.text }
  match files.findIdx? (·.path == m.location.file) with
  | some file =>
    if span.start < span.stop then
      { d with labels := [{ file, start := span.start, stop := span.stop }] }
    else d
  | none => { d with notes := ["at " ++ m.location.text] }

/-! ## Text -/

/-- Number of characters in UTF-8 bytes: all bytes but the continuing ones. -/
def charCount (bytes : Binary.Bytes) : Nat :=
  bytes.countP fun b => b &&& 0xc0 != 0x80

/-- The line feed. -/
def lineFeed : UInt8 := 10

/-- The line that holds a byte: its number and the column of the byte, both from one, and its text
without the end. -/
def lineAt (source : String) (offset : Nat) : Nat × Nat × String :=
  let bytes := Binary.utf8 source
  let before := bytes.take offset
  let head := (before.reverse.takeWhile (· != lineFeed)).reverse
  let tail := (bytes.drop offset).takeWhile (· != lineFeed)
  let text := (String.fromUTF8? (head ++ tail).toByteArray).getD ""
  let trimmed := (text.toList.reverse.dropWhile fun c => c == '\r' || c == '\x00').reverse
  (before.count lineFeed + 1, charCount head + 1, String.ofList trimmed)

/-- A number of blanks. -/
def blanks (n : Nat) : String :=
  String.ofList (List.replicate n ' ')

/-- The lines that show a label. -/
def labelLines (files : List SourceFile) (l : Label) : List String :=
  match files[l.file]? with
  | none => []
  | some f =>
    let (line, column, text) := lineAt f.source l.start
    let number := toString line
    let margin := blanks number.length
    let marked := charCount ((Binary.utf8 f.source |>.drop l.start).take (l.stop - l.start))
    [margin ++ " ┌─ " ++ f.path ++ ":" ++ number ++ ":" ++ toString column,
     margin ++ " │",
     number ++ " │ " ++ text,
     margin ++ " │ " ++ blanks (column - 1) ++ String.ofList (List.replicate marked '^')]

/-- The lines of a diagnostic, with an empty one at the end. -/
def lines (files : List SourceFile) (d : Diagnostic) : List String :=
  [d.severity.text ++ "[" ++ d.code ++ "]: " ++ d.message]
    ++ d.labels.flatMap (labelLines files) ++ d.notes.map (" = " ++ ·) ++ [""]

/-- The text of diagnostics one after the other. -/
def render (files : List SourceFile) (diagnostics : List Diagnostic) : String :=
  String.join ((diagnostics.flatMap (lines files)).map (· ++ "\n"))

end Diagnostic

end ScriptCompiler
