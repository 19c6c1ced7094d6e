import ScriptCompiler.Text.Hex
import ScriptCompiler.Toml.Parser

/-!
# Texts, numbers and times of a configuration file
-/

namespace ScriptCompiler.Toml

open ScriptCompiler.Toml.Parser

/-! ## Blanks and line ends -/

/-- Takes blanks and tabs. -/
def blanks : Parser Unit := do
  let _ ← takeWhile fun c => c == ' ' || c == '\t'

/-- Takes a line end. -/
def newline : Parser Unit :=
  char '\n' <|> text "\r\n"

/-- Whether a character may stand in a comment: no control character but the tab. -/
def isPlain (c : Char) : Bool :=
  c == '\t' || (' ' ≤ c && c != '\x7f')

/-- Takes a comment. -/
def comment : Parser Unit := do
  char '#'
  let _ ← takeWhile isPlain

/-- Takes blanks, an optional comment and the end of the line or text. -/
def lineEnd : Parser Unit := do
  blanks
  let _ ← optional comment
  newline <|> endOfText

/-- Takes blanks, comments and line ends. -/
def layout : Parser Unit := do
  blanks
  let _ ← many (do (comment <|> newline); blanks)

/-! ## Texts -/

/-- The character with the given hexadecimal digits. -/
def scalarValue (digits : List Char) : Parser Char := fun cs => do
  let n ← Text.hexValue? digits
  if n.isValidChar then some (Char.ofNat n, cs) else none

/-- Whether a character is a hexadecimal digit. -/
def isHexDigit (c : Char) : Bool :=
  (Text.hexDigitValue? c).isSome

/-- The character that an escape behind a backslash stands for. -/
def escape : Parser Char := do
  match ← satisfy fun _ => true with
  | 'b' => return '\x08'
  | 't' => return '\t'
  | 'n' => return '\n'
  | 'f' => return '\x0c'
  | 'r' => return '\r'
  | '"' => return '"'
  | '\\' => return '\\'
  | 'u' => scalarValue (← exactly 4 isHexDigit)
  | 'U' => scalarValue (← exactly 8 isHexDigit)
  | _ => failure

/-- A text in double quotes. -/
def basicString : Parser String := do
  char '"'
  let cs ← many ((do char '\\'; escape) <|>
    satisfy fun c => isPlain c && c != '"' && c != '\\')
  char '"'
  return String.ofList cs

/-- A text in single quotes, without escapes. -/
def literalString : Parser String := do
  char '\''
  let cs ← takeWhile fun c => isPlain c && c != '\''
  char '\''
  return String.ofList cs

/-- Closes a text over several lines: three quotes, behind up to two that belong to the text. -/
def closing (quote : Char) : Parser (List Char) := do
  let quotes ← takeWhile (· == quote)
  if quotes.length < 3 then failure
  let used := min quotes.length 5
  modify (quotes.drop used ++ ·)
  return List.replicate (used - 3) quote

/-- One or two quotes that belong to a text over several lines. -/
def innerQuotes (quote : Char) : Parser (List Char) := do
  let quotes ← takeWhile (· == quote)
  if quotes.length = 0 ∨ 3 ≤ quotes.length then failure
  return quotes

/-- A backslash at the end of a line, with all blanks and line ends that follow. -/
def continuation : Parser (List Char) := do
  char '\\'
  blanks
  newline
  let _ ← many (newline <|> do let _ ← satisfy fun c => c == ' ' || c == '\t')
  return []

/-- A text over several lines in the given quotes, made of the given pieces.  A line end right
behind the opening quotes is left out. -/
def multiline (quote : Char) (piece : Parser (List Char)) : Parser String := do
  text (String.ofList (List.replicate 3 quote))
  let _ ← optional newline
  let pieces ← many (piece <|> (do newline; return ['\n']) <|> innerQuotes quote)
  return String.ofList (pieces.flatten ++ (← closing quote))

/-- A text over several lines in double quotes. -/
def multilineBasic : Parser String :=
  multiline '"' (continuation <|> (do char '\\'; return [← escape]) <|>
    (do return [← satisfy fun c => isPlain c && c != '"' && c != '\\']))

/-- A text over several lines in single quotes. -/
def multilineLiteral : Parser String :=
  multiline '\'' do return [← satisfy fun c => isPlain c && c != '\'']

/-- A text. -/
def stringValue : Parser String :=
  multilineBasic <|> basicString <|> multilineLiteral <|> literalString

/-! ## Numbers -/

/-- Digits with single underscores between them. -/
def digits (isDigit : Char → Bool) : Parser (List Char) := do
  let groups ← separatedBy (char '_') do
    let group ← takeWhile isDigit
    if group.isEmpty then failure
    return group
  return groups.flatten

/-- An optional sign; whether it is negative. -/
def sign : Parser Bool :=
  (do char '-'; return true) <|> (do char '+'; return false) <|> return false

/-- The number that decimal digits denote. -/
def decimalValue (ds : List Char) : Nat :=
  ds.foldl (fun n c => 10 * n + (c.toNat - '0'.toNat)) 0

/-- A decimal integer without leading zeros. -/
def decimal : Parser (Bool × List Char) := do
  let negative ← sign
  if (← peek) = some '0' then
    char '0'
    return (negative, ['0'])
  return (negative, ← digits Char.isDigit)

/-- An integer behind a mark for its base. -/
def based (mark : String) (base : Nat) (isDigit : Char → Bool) : Parser Int := do
  text mark
  let ds ← digits isDigit
  return ds.foldl (fun n c => base * n + (Text.hexDigitValue? c).getD 0) 0

/-- An integer that fits into a signed 64-bit number. -/
def integer : Parser Int := do
  let n ← based "0x" 16 isHexDigit <|> based "0o" 8 (fun c => '0' ≤ c && c ≤ '7') <|>
    based "0b" 2 (fun c => c == '0' || c == '1') <|> do
      let (negative, ds) ← decimal
      return if negative then -(decimalValue ds : Int) else decimalValue ds
  if -(Nat.pow 2 63 : Int) ≤ n ∧ n < Nat.pow 2 63 then return n else failure

/-- Whether the number `mantissa * 10 ^ exponent` rounds to a finite double-precision number. -/
def isFinite (mantissa : List Char) (exponent : Int) : Bool :=
  let n := decimalValue mantissa
  let magnitude := ((mantissa.dropWhile (· == '0')).length : Int) + exponent
  if n = 0 ∨ magnitude ≤ 300 then true
  else if magnitude > 310 then false
  else
    let bound := Nat.pow 2 1024 - Nat.pow 2 970
    if exponent ≥ 0 then n * Nat.pow 10 exponent.toNat < bound
    else n < bound * Nat.pow 10 (-exponent).toNat

/-- An exponent. -/
def exponent : Parser Int := do
  let _ ← satisfy fun c => c == 'e' || c == 'E'
  let negative ← sign
  let n := decimalValue (← digits Char.isDigit)
  return if negative then -(n : Int) else n

/-- A number with a fraction or an exponent.  It must not be too great. -/
def fractional : Parser Unit := do
  let (negative, whole) ← decimal
  let fraction ← optional (do char '.'; digits Char.isDigit)
  let power ← optional exponent
  if fraction.isNone ∧ power.isNone then failure
  let fraction := fraction.getD []
  unless negative || isFinite (whole ++ fraction) (power.getD 0 - fraction.length) do failure

/-- A floating point number. -/
def float : Parser Unit :=
  fractional <|> do
    let _ ← sign
    text "inf" <|> text "nan"

/-! ## Dates and times -/

/-- A number of the given count of digits between two bounds. -/
def field (count least greatest : Nat) : Parser Nat := do
  let n := decimalValue (← exactly count Char.isDigit)
  if least ≤ n ∧ n ≤ greatest then return n else failure

/-- Number of days of a month. -/
def daysIn (year month : Nat) : Nat :=
  if month = 2 then
    if year % 4 = 0 ∧ (year % 100 ≠ 0 ∨ year % 400 = 0) then 29 else 28
  else if month ∈ [4, 6, 9, 11] then 30 else 31

/-- A date. -/
def date : Parser Unit := do
  let year ← field 4 0 9999
  char '-'
  let month ← field 2 1 12
  char '-'
  let _ ← field 2 1 (daysIn year month)

/-- A time of day. -/
def time : Parser Unit := do
  let _ ← field 2 0 23
  char ':'
  let _ ← field 2 0 59
  char ':'
  let _ ← field 2 0 60
  let _ ← optional do
    char '.'
    let fraction ← takeWhile Char.isDigit
    if fraction.isEmpty then failure

/-- The distance of a time from universal time. -/
def offset : Parser Unit :=
  (do let _ ← satisfy fun c => c == 'Z' || c == 'z') <|> do
    let _ ← satisfy fun c => c == '+' || c == '-'
    let _ ← field 2 0 23
    char ':'
    let _ ← field 2 0 59

/-- A date, a time, or both. -/
def datetime : Parser Unit :=
  (do
    date
    let _ ← optional do
      let _ ← satisfy fun c => c == 'T' || c == 't' || c == ' '
      time
      let _ ← optional offset) <|> time

end ScriptCompiler.Toml
