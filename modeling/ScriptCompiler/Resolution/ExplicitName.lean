/-!
# Names of explicit implementations

A member that explicitly implements an interface member is stored under the name of the interface,
a dot and the name of the member.  The interface may be spelled with its type arguments in angle
brackets, so the dot that counts is the last one outside brackets.

Two spellings of an interface agree if they are the same without type arguments and arity
suffixes, with a dot before nested types.

The depth of brackets has no bound here.  It never exceeds the length of the name, so a counter of 32
bits takes the same values in every name of fewer than `2 ^ 31` characters.
-/

namespace ScriptCompiler.Resolution

/-- Position of the last dot outside angle brackets, given the depth of brackets and the position
of the first character; `last` is the answer if there is none. -/
def lastOuterDot (depth : Int) (position : Nat) (last : Option Nat) : List Char → Option Nat
  | [] => last
  | '<' :: rest => lastOuterDot (depth + 1) (position + 1) last rest
  | '>' :: rest => lastOuterDot (depth - 1) (position + 1) last rest
  | c :: rest =>
    lastOuterDot depth (position + 1) (if c = '.' ∧ depth = 0 then some position else last) rest

/-- The interface part and the member part of a stored name, if it has both. -/
def splitExplicitName (name : String) : Option (String × String) :=
  let cs := name.toList
  match lastOuterDot 0 0 none cs with
  | none | some 0 => none
  | some i => some (String.ofList (cs.take i), String.ofList (cs.drop (i + 1)))

/-- A spelling of an interface without type arguments and arity suffixes, from the given depth of
brackets on; `arity` tells whether digits belong to an arity suffix. -/
def plainInterface (depth : Nat) (arity : Bool) : List Char → List Char
  | [] => []
  | c :: rest =>
    if c = '<' then plainInterface (depth + 1) arity rest
    else if c = '>' then plainInterface (depth - 1) arity rest
    else if depth > 0 then plainInterface depth arity rest
    else if c = '\x60' then plainInterface depth true rest
    else if arity && c.isDigit then plainInterface depth arity rest
    else (if c = '+' then '.' else c) :: plainInterface depth false rest

/-- A spelling of an interface in the form in which spellings are compared. -/
def normalizeInterface (name : String) : String :=
  String.ofList (plainInterface 0 false name.toList)

end ScriptCompiler.Resolution
