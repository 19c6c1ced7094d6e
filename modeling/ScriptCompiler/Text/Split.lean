/-!
# Cutting a text at a character
-/

namespace ScriptCompiler.Text

/-- The pieces of a text between the occurrences of `mark`; there is always at least one. -/
def splitAtChar (mark : Char) : List Char → List (List Char)
  | [] => [[]]
  | c :: cs =>
    if c = mark then [] :: splitAtChar mark cs
    else
      match splitAtChar mark cs with
      | piece :: rest => (c :: piece) :: rest
      | [] => [[c]]

/-- The pieces of a text between dots. -/
def dottedParts (s : String) : List String :=
  (splitAtChar '.' s.toList).map String.ofList

end ScriptCompiler.Text
