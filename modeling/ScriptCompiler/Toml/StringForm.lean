import ScriptCompiler.Text.Hex

/-!
# Written forms of a text

A configuration file has four forms of a text.  In double quotes a backslash starts an escape; in
single quotes every character stands for itself.  Either kind of quote may be tripled, and the text
may then span lines.

`StringForm.choose` takes the first form that holds the text as it is, in the order double quotes,
single quotes, tripled double quotes, tripled single quotes.  A text that none of them holds is
written with escapes.
-/

namespace ScriptCompiler.Toml

/-- A form in which a text is written. -/
inductive StringForm where
  /-- Double quotes. -/
  | basic
  /-- Single quotes. -/
  | literal
  /-- Tripled double quotes. -/
  | multilineBasic
  /-- Tripled single quotes. -/
  | multilineLiteral
deriving DecidableEq, Repr, Inhabited

/-- Whether `c` is written as an escape in every form that can hold it: a control character other
than the tab and the line feed. -/
def isControl (c : Char) : Bool :=
  (c < ' ' && c != '\t' && c != '\n') || c == '\x7f'

/-- The length of the longest run of `quote`, if `run` of them stand in front of the text. -/
def longestRun (quote : Char) : List Char → Nat → Nat
  | [], run => run
  | c :: cs, run =>
    if c = quote then longestRun quote cs (run + 1) else max run (longestRun quote cs 0)

/-- A character other than the quote between double quotes; a line feed stands for itself if the
text may span lines. -/
def escapedChar (spansLines : Bool) (c : Char) : List Char :=
  match c with
  | '\\' => ['\\', '\\']
  | '\x08' => ['\\', 'b']
  | '\t' => ['\\', 't']
  | '\n' => if spansLines then ['\n'] else ['\\', 'n']
  | '\x0c' => ['\\', 'f']
  | '\r' => ['\\', 'r']
  | c =>
    if isControl c then '\\' :: 'u' :: (Text.hexPadded 4 c.toNat).toList.map Char.toUpper
    else [c]

namespace StringForm

/-- Whether the quotes are tripled. -/
def isTripled : StringForm → Bool
  | basic | literal => false
  | multilineBasic | multilineLiteral => true

/-- The quote of the form. -/
def quote : StringForm → Char
  | basic | multilineBasic => '"'
  | literal | multilineLiteral => '\''

/-- How many quotes in a row may stand inside the text. -/
def freeQuotes (form : StringForm) : Nat :=
  if form.isTripled then 2 else 0

/-- Whether a backslash starts an escape. -/
def hasEscapes : StringForm → Bool
  | basic | multilineBasic => true
  | literal | multilineLiteral => false

/-- Whether the form holds a text as it is: no control character, no backslash that would start an
escape, no line feed on a single line, and no quotes that would end the text. -/
def holds (form : StringForm) (s : List Char) : Bool :=
  !s.any isControl && !(form.hasEscapes && s.contains '\\') &&
    (form.isTripled || !s.contains '\n') && longestRun form.quote s 0 ≤ form.freeQuotes

/-- The form in which a text is written. -/
def choose (s : List Char) : StringForm :=
  match [basic, literal, multilineBasic, multilineLiteral].find? (·.holds s) with
  | some form => form
  | none => if s.contains '\n' then multilineBasic else basic

/-- The characters between double quotes, if `run` quotes stand right in front of them: a quote is
escaped once as many stand in a row as the form allows. -/
def escaped (form : StringForm) : List Char → Nat → List Char
  | [], _ => []
  | c :: cs, run =>
    if c = '"' then
      if run < form.freeQuotes then '"' :: form.escaped cs (run + 1)
      else '\\' :: '"' :: form.escaped cs 0
    else escapedChar form.isTripled c ++ form.escaped cs 0

/-- A text in the form.  A text that spans lines starts on a line of its own. -/
def write (form : StringForm) (s : List Char) : List Char :=
  let delimiter := List.replicate (if form.isTripled then 3 else 1) form.quote
  let start := if form.isTripled && s.contains '\n' then ['\n'] else []
  delimiter ++ start ++ (if form.hasEscapes then form.escaped s 0 else s) ++ delimiter

end StringForm

/-- A text as it is written in a configuration file. -/
def stringText (s : String) : String :=
  String.ofList ((StringForm.choose s.toList).write s.toList)

end ScriptCompiler.Toml
