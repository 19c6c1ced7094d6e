import ScriptCompiler.Text.Letter

/-!
# Identifiers

An identifier of the script opens with a letter, an underscore or a dollar sign and goes on with
letters, numerals and the same two signs.
-/

namespace ScriptCompiler.Text

/-- Whether `c` may open an identifier. -/
def opensIdentifier (c : Char) : Bool :=
  isAlphabetic c || c == '_' || c == '$'

/-- Whether `c` may stand inside an identifier. -/
def continuesIdentifier (c : Char) : Bool :=
  isAlphanumeric c || c == '_' || c == '$'

/-- Whether the characters form an identifier. -/
def isIdentifierChars : List Char → Bool
  | [] => false
  | c :: cs => opensIdentifier c && cs.all continuesIdentifier

/-- Whether the text is an identifier. -/
def isIdentifier (name : String) : Bool :=
  isIdentifierChars name.toList

end ScriptCompiler.Text
