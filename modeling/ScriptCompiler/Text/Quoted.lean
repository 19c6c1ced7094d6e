import ScriptCompiler.Text.Hex
import ScriptCompiler.Text.Printable

/-!
# Quoted texts

Two ways to write a text between double quotes.  `literal` is the string literal of the script: it
escapes the quote, the backslash and the control characters and writes everything else raw.
`shown` is the form in which a name stands inside a message: there every character without a glyph
of its own is escaped as well.
-/

namespace ScriptCompiler.Text

/-- One character inside a string literal of the script. -/
def literalChar (c : Char) : String :=
  if c = '"' then "\\\""
  else if c = '\\' then "\\\\"
  else if c = '\n' then "\\n"
  else if c = '\r' then "\\r"
  else if c = '\t' then "\\t"
  else if c.toNat = 0x8 then "\\b"
  else if c.toNat = 0xc then "\\f"
  else if c.toNat < 0x20 then "\\u" ++ hexPadded 4 c.toNat
  else c.toString

/-- The string literal that denotes `s`. -/
def literal (s : String) : String :=
  "\"" ++ String.join (s.toList.map literalChar) ++ "\""

/-- One character of a text shown inside a message. -/
def shownChar (c : Char) : String :=
  if c = '"' then "\\\""
  else if c = '\\' then "\\\\"
  else if c = '\n' then "\\n"
  else if c = '\r' then "\\r"
  else if c = '\t' then "\\t"
  else if c.toNat = 0 then "\\0"
  else if isShownRaw c then c.toString
  else "\\u\x7b" ++ String.ofList (hexDigits c.toNat) ++ "\x7d"

/-- The text between double quotes, as a message shows it. -/
def shown (s : String) : String :=
  "\"" ++ String.join (s.toList.map shownChar) ++ "\""

end ScriptCompiler.Text
