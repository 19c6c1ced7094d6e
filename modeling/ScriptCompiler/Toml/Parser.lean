/-!
# Reading characters

A parser takes characters from the front of a text, or refuses it.  Repetition is bounded by the
number of characters that are left.
-/

namespace ScriptCompiler.Toml

/-- Takes characters from the front of a text. -/
abbrev Parser := StateT (List Char) Option

namespace Parser

/-- Takes a character that satisfies a test. -/
def satisfy (test : Char → Bool) : Parser Char := fun
  | c :: rest => if test c then some (c, rest) else none
  | [] => none

/-- Takes the given character. -/
def char (c : Char) : Parser Unit := do
  let _ ← satisfy (· == c)

/-- Takes the given text. -/
def text (s : String) : Parser Unit := fun cs =>
  if s.toList.isPrefixOf cs then some ((), cs.drop s.length) else none

/-- Takes characters as long as they satisfy a test. -/
def takeWhile (test : Char → Bool) : Parser (List Char) := fun cs =>
  some (cs.takeWhile test, cs.dropWhile test)

/-- Takes the given number of characters that satisfy a test. -/
def exactly (n : Nat) (test : Char → Bool) : Parser (List Char) := fun cs =>
  let taken := cs.take n
  if taken.length = n ∧ taken.all test then some (taken, cs.drop n) else none

/-- Succeeds if the text is used up. -/
def endOfText : Parser Unit := fun cs =>
  if cs.isEmpty then some ((), cs) else none

/-- Looks at the next character without taking it. -/
def peek : Parser (Option Char) := fun cs =>
  some (cs.head?, cs)

/-- Values one after the other, at most the given number of them. -/
def upTo {α : Type} (p : Parser α) : Nat → Parser (List α)
  | 0 => return []
  | n + 1 => do
    match ← optional p with
    | some a => return a :: (← upTo p n)
    | none => return []

/-- Values one after the other, as many as there are.  Every one of them takes a character. -/
def many {α : Type} (p : Parser α) : Parser (List α) := do
  upTo p (← get).length

/-- The characters that a parser takes. -/
def taken {α : Type} (p : Parser α) : Parser (List Char) := fun cs =>
  match p cs with
  | some (_, rest) => some (cs.take (cs.length - rest.length), rest)
  | none => none

/-- Values with a separator between them, at least one. -/
def separatedBy {α β : Type} (separator : Parser β) (p : Parser α) : Parser (List α) := do
  let first ← p
  let rest ← many (do let _ ← separator; p)
  return first :: rest

end Parser

end ScriptCompiler.Toml
