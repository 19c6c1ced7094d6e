import ScriptCompiler.Toml.Scalar

/-!
# Configuration files

A document is a table of values.  Its tables are opened by headers or by dotted keys; each table
is opened once, and a table in braces is complete as it stands.
-/

namespace ScriptCompiler.Toml

open ScriptCompiler.Toml.Parser

/-- What opened a table. -/
inductive Origin where
  /-- Braces; such a table is complete. -/
  | braces
  /-- Its own header. -/
  | header
  /-- The header of a table inside it. -/
  | implied
  /-- A dotted key. -/
  | dotted
deriving DecidableEq, Repr, Inhabited

/-- A value of a document. -/
inductive Value where
  | string (value : String)
  | boolean (value : Bool)
  | integer (value : Int)
  /-- A floating point number, as it is written. -/
  | float (text : String)
  /-- A date or time, as it is written. -/
  | datetime (text : String)
  | array (items : List Value)
  | table (origin : Origin) (entries : List (String × Value))
  /-- Tables under headers in double brackets. -/
  | tables (elements : List (List (String × Value)))
deriving Inhabited

/-- The entries of a table. -/
abbrev Entries := List (String × Value)

/-! ## Tables -/

/-- Puts a value in the place of that of a key. -/
def replace (entries : Entries) (key : String) (value : Value) : Entries :=
  entries.map fun (k, v) => if k = key then (k, value) else (k, v)

/-- Adds a value under a dotted key, given by the parts before the last one and the last one. -/
def insert (key : String) (value : Value) : List String → Entries → Option Entries
  | [], entries =>
    match entries.lookup key with
    | none => some (entries ++ [(key, value)])
    | some _ => none
  | k :: rest, entries =>
    match entries.lookup k with
    | none => do
      return entries ++ [(k, .table .dotted (← insert key value rest []))]
    | some (.table origin inner) =>
      if origin = .dotted ∨ (origin = .implied ∧ !rest.isEmpty) then do
        return replace entries k (.table origin (← insert key value rest inner))
      else none
    | some (.tables elements) =>
      match elements.getLast?, rest with
      | some inner, _ :: _ => do
        return replace entries k
          (.tables (elements.dropLast ++ [← insert key value rest inner]))
      | _, _ => none
    | some _ => none

/-- Adds pairs of dotted keys and values. -/
def fill (entries : Entries) (pairs : List (List String × Value)) : Option Entries :=
  pairs.foldlM (fun entries (path, value) => do
    insert (← path.getLast?) value path.dropLast entries) entries

/-- Changes the table that a header leads to through the given keys. -/
def descend (change : Entries → Option Entries) : List String → Entries → Option Entries
  | [], entries => change entries
  | k :: rest, entries =>
    match entries.lookup k with
    | none => do return entries ++ [(k, .table .implied (← descend change rest []))]
    | some (.table .braces _) => none
    | some (.table origin inner) => do
      return replace entries k (.table origin (← descend change rest inner))
    | some (.tables elements) => do
      let inner ← elements.getLast?
      return replace entries k (.tables (elements.dropLast ++ [← descend change rest inner]))
    | some _ => none

/-- Opens the table of a header and fills it. -/
def openTable (key : String) (pairs : List (List String × Value)) (entries : Entries) :
    Option Entries :=
  match entries.lookup key with
  | none => do return entries ++ [(key, .table .header (← fill [] pairs))]
  | some (.table .implied inner) => do
    return replace entries key (.table .header (← fill inner pairs))
  | some _ => none

/-- Opens another table of a header in double brackets and fills it. -/
def openElement (key : String) (pairs : List (List String × Value)) (entries : Entries) :
    Option Entries :=
  match entries.lookup key with
  | none => do return entries ++ [(key, .tables [← fill [] pairs])]
  | some (.tables elements) => do
    return replace entries key (.tables (elements ++ [← fill [] pairs]))
  | some _ => none

/-! ## Keys and values -/

/-- The greatest number of parts of a key, and of levels of arrays and tables in braces. -/
def nestingLimit : Nat := 79

/-- One part of a key. -/
def keyPart : Parser String :=
  basicString <|> literalString <|> do
    let cs ← takeWhile fun c => c.isAlphanum || c == '_' || c == '-'
    if cs.isEmpty then failure
    return String.ofList cs

/-- A dotted key. -/
def key : Parser (List String) := do
  let parts ← separatedBy (char '.') (do blanks; let part ← keyPart; blanks; return part)
  if nestingLimit < parts.length then failure
  return parts

/-- A key with its value. -/
def pair (value : Parser Value) : Parser (List String × Value) := do
  let path ← key
  char '='
  blanks
  return (path, ← value)

/-- A value that holds no other values. -/
def scalar : Parser Value :=
  (.string <$> stringValue) <|> (do return .datetime (String.ofList (← taken datetime))) <|>
    (do return .float (String.ofList (← taken float))) <|> (.integer <$> integer) <|>
    (do text "true"; return .boolean true) <|> (do text "false"; return .boolean false)

/-- An array of the given values. -/
def array (value : Parser Value) : Parser Value := do
  char '['
  layout
  let items ← optional (separatedBy (char ',') (do layout; let v ← value; layout; return v))
  if items.isSome then
    let _ ← optional (char ',')
  layout
  char ']'
  return .array (items.getD [])

/-- A table in braces with the given values. -/
def braces (value : Parser Value) : Parser Value := do
  char '\x7b'
  blanks
  let pairs ← optional
    (separatedBy (char ',') (do blanks; let p ← pair value; blanks; return p))
  blanks
  char '\x7d'
  match fill [] (pairs.getD []) with
  | some entries => return .table .braces entries
  | none => failure

/-- A value with at most the given number of levels of arrays and tables in braces. -/
def valueWithin : Nat → Parser Value
  | 0 => scalar
  | depth + 1 => scalar <|> array (valueWithin depth) <|> braces (valueWithin depth)

/-! ## Documents -/

/-- A line that is not blank. -/
inductive Line where
  | pair (path : List String) (value : Value)
  | header (path : List String)
  | elementHeader (path : List String)

/-- A line of a document, with its end. -/
def line : Parser (Option Line) := do
  blanks
  let content ← optional
    ((do text "[["; let path ← key; text "]]"; return .elementHeader path) <|>
      (do char '['; let path ← key; char ']'; return .header path) <|>
      do let (path, value) ← pair (valueWithin nestingLimit); return .pair path value)
  lineEnd
  return content

/-- Whether a line is a header. -/
def Line.isHeader : Line → Bool
  | .pair .. => false
  | .header _ | .elementHeader _ => true

/-- The keys and values of lines. -/
def pairs (lines : List Line) : List (List String × Value) :=
  lines.filterMap fun
    | .pair path value => some (path, value)
    | _ => none

/-- Adds the tables of the headers among the lines, each with the pairs up to the next header. -/
def addSections (entries : Entries) : List Line → Option Entries
  | [] => some entries
  | .pair .. :: rest => addSections entries rest
  | .header path :: rest => do
    let own := pairs (rest.takeWhile (!·.isHeader))
    let entries ← descend (openTable (← path.getLast?) own) path.dropLast entries
    addSections entries rest
  | .elementHeader path :: rest => do
    let own := pairs (rest.takeWhile (!·.isHeader))
    let entries ← descend (openElement (← path.getLast?) own) path.dropLast entries
    addSections entries rest

/-- All lines of a document. -/
def lines : Parser (List (Option Line)) := do
  let _ ← optional (char '\ufeff')
  let found ← many (do
    if (← get).isEmpty then failure
    line)
  endOfText
  return found

/-- The table of a document; `none` if it is malformed. -/
def parse? (s : String) : Option Entries := do
  let (found, _) ← lines.run s.toList
  let found := found.filterMap id
  addSections (← fill [] (pairs (found.takeWhile (!·.isHeader)))) found

end ScriptCompiler.Toml
