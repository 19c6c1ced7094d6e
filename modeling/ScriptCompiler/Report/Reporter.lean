import ScriptCompiler.Report.Message
import ScriptCompiler.Source.Position

/-!
# Reporters

A reporter keeps every message in the order of reporting, each with the location that was current
when it was reported.  `TextReporter` writes the messages down one a line; a `ReporterGroup` lets
several reporters with locations of their own add to one list.
-/

namespace ScriptCompiler

/-- A message as it was reported. -/
structure Reported where
  severity : Severity
  code : String
  text : String
  location : Location
deriving DecidableEq, Repr, Inhabited

namespace Reported

/-- Whether the message reports a defect. -/
def isInternalError (m : Reported) : Bool :=
  m.code == Message.internalError.code

/-- The message on one line: location, severity, code and text. -/
def line (m : Reported) : String :=
  m.location.text ++ ": " ++ m.severity.text ++ " " ++ m.code ++ ": " ++ m.text

end Reported

/-- The texts of an error and of its causes, outermost first. -/
def chainText (causes : List String) : String :=
  ": ".intercalate causes

/-- Collects messages. -/
structure Reporter where
  /-- Whether warnings are reported as errors. -/
  promoteWarnings : Bool := false
  /-- The location of the messages to come. -/
  location : Location := {}
  messages : List Reported := []
deriving DecidableEq, Repr, Inhabited

namespace Reporter

/-- Sets the location of the messages to come. -/
def setLocation (r : Reporter) (location : Location) : Reporter :=
  { r with location }

/-- A catalog entry with its arguments, as this reporter would record it. -/
def entry (r : Reporter) (m : Message) (arguments : List String) : Reported where
  severity := m.severity.promote r.promoteWarnings
  code := m.code
  text := m.text arguments
  location := r.location

/-- Reports a catalog entry. -/
def report (r : Reporter) (m : Message) (arguments : List String) : Reporter :=
  { r with messages := r.messages ++ [r.entry m arguments] }

/-- Reports a defect. -/
def internalError (r : Reporter) (text : String) : Reporter :=
  r.report .internalError [text]

/-- Reports a defect through the texts of an error and of its causes, behind a context if there is
one. -/
def internalErrorFrom (r : Reporter) (causes : List String) (context : Option String) : Reporter :=
  r.internalError ((match context with | some c => c ++ ": " | none => "") ++ chainText causes)

/-- Whether an error was reported. -/
def hasErrors (r : Reporter) : Bool :=
  r.messages.any (·.severity == .error)

/-- Whether a defect was reported. -/
def hasInternalErrors (r : Reporter) : Bool :=
  r.messages.any Reported.isInternalError

/-- Number of errors reported. -/
def errorCount (r : Reporter) : Nat :=
  r.messages.countP (·.severity == .error)

end Reporter

/-- Messages on lines of their own. -/
def messageLines (messages : List Reported) : String :=
  String.join (messages.map fun m => m.line ++ "\n")

/-- Writes messages down.  A writer that fails keeps nothing, but errors are still counted. -/
structure TextReporter where
  reporter : Reporter := {}
  failing : Bool := false

/-- What was written since the first `seen` messages. -/
def TextReporter.writtenSince (t : TextReporter) (seen : Nat) : String :=
  if t.failing then "" else messageLines (t.reporter.messages.drop seen)

/-- Several reporters, each with its own location, that share one list of messages. -/
structure ReporterGroup where
  messages : List Reported := []
  /-- Location and promotion of each reporter. -/
  handles : List (Location × Bool) := [({}, false)]
deriving Repr, Inhabited

namespace ReporterGroup

/-- One reporter of the group. -/
def reporter? (g : ReporterGroup) (i : Nat) : Option Reporter :=
  (g.handles[i]?).map fun (location, promoteWarnings) =>
    { promoteWarnings, location, messages := g.messages }

/-- Lets one reporter of the group act. -/
def act (g : ReporterGroup) (i : Nat) (f : Reporter → Reporter) : ReporterGroup :=
  match g.reporter? i with
  | none => g
  | some r =>
    let r := f r
    { messages := r.messages, handles := g.handles.set i (r.location, r.promoteWarnings) }

/-- Adds a copy of one reporter of the group behind all others. -/
def clone (g : ReporterGroup) (i : Nat) : ReporterGroup :=
  match g.handles[i]? with
  | none => g
  | some handle => { g with handles := g.handles ++ [handle] }

end ReporterGroup

end ScriptCompiler
