/-!
# Source positions

A span is a byte range of a source file together with the line and column where it starts; a
location is a span in a named file.  Lines and columns count from one, and zero stands for a
position that was never set.
-/

namespace ScriptCompiler

/-- A byte range with the line and column of its start. -/
structure Span where
  start : Nat := 0
  stop : Nat := 0
  line : Nat := 0
  column : Nat := 0
deriving DecidableEq, Repr, Inhabited

namespace Span

/-- Number of bytes in the range, as a difference of 64-bit offsets. -/
def length (s : Span) : Nat :=
  (Nat.pow 2 64 + s.stop - s.start) % Nat.pow 2 64

/-- Whether the range holds no byte. -/
def isEmpty (s : Span) : Bool :=
  s.start == s.stop

end Span

/-- A span in a named source file. -/
structure Location where
  file : String := ""
  span : Span := {}
deriving DecidableEq, Repr, Inhabited

/-- A location as `file(line,column)`; an unset position counts as the first one. -/
def Location.text (l : Location) : String :=
  l.file ++ "(" ++ toString (max l.span.line 1) ++ "," ++ toString (max l.span.column 1) ++ ")"

end ScriptCompiler
