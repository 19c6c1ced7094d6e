import ScriptCompiler.Text.Blank
import ScriptCompiler.Text.Split

/-!
# Source comments

The kinds of comment that a front end keeps in the tree, and the layout of a comment of several
lines: each line is trimmed and set behind the indentation of the first line that is not blank,
and blank lines at either end are dropped.
-/

namespace ScriptCompiler

/-- The kind of a source comment. -/
inductive CommentKind where
  /-- `// …` -/
  | singleLine
  /-- `/* … */` -/
  | multiLine
  /-- `/// …` -/
  | documentation
  /-- `/** … */` -/
  | multiLineDocumentation
  /-- Code switched off by a condition. -/
  | inactiveCode
deriving DecidableEq, Repr, Inhabited

/-- A raw comment tag that stands for no kind. -/
structure InvalidCommentTag where
  tag : Nat
deriving DecidableEq, Repr

/-- The text of the error. -/
def InvalidCommentTag.message (e : InvalidCommentTag) : String :=
  "Invalid comment type: " ++ toString e.tag

/-- The kind that a raw tag stands for. -/
def CommentKind.ofTag : Nat → Except InvalidCommentTag CommentKind
  | 0 => .ok .singleLine
  | 1 => .ok .multiLine
  | 2 => .ok .documentation
  | 3 => .ok .multiLineDocumentation
  | 4 => .ok .inactiveCode
  | tag => .error ⟨tag⟩

namespace CommentLayout

/-- The indentation of the first line that is not blank, without carriage returns. -/
def indentation (content : List Char) : List Char :=
  let leading := content.takeWhile Text.isBlank
  ((leading.reverse.takeWhile (· != '\n')).reverse).filter (· != '\r')

/-- The list without the empty lines at either end. -/
def dropEmptyEnds (lines : List (List Char)) : List (List Char) :=
  ((lines.dropWhile List.isEmpty).reverse.dropWhile List.isEmpty).reverse

/-- The lines of a text, each one trimmed, without blank lines at either end. -/
def keptLines (content : List Char) : List (List Char) :=
  dropEmptyEnds ((Text.splitAtChar '\n' content).map Text.trim)

end CommentLayout

open CommentLayout in
/-- The text of a comment of several lines in its new layout, lines joined by `separator`; `none`
when nothing but white space is left. -/
def reformatComment (content separator : String) : Option String :=
  match keptLines content.toList with
  | [] => none
  | lines =>
    let lead := indentation content.toList
    some (separator.intercalate (lines.map fun line => String.ofList (lead ++ line)))

end ScriptCompiler
