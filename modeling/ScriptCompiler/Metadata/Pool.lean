import ScriptCompiler.Binary.Decoder

/-!
# The string pool of a metadata module

Every name of the tables is stored once in a pool and written as its index.  Texts are interned in
the order in which the tables mention them.
-/

namespace ScriptCompiler.Metadata

open Binary

/-- Texts by index, with an index of them. -/
structure Pool where
  strings : List String := []
  /-- The index under which a text is interned. -/
  index : List (String × UInt32) := []
deriving DecidableEq, Repr, Inhabited

/-- Writes with a pool to intern names in. -/
abbrev Emit := StateM Pool

namespace Pool

/-- The index of a text, and the pool in which it has one. -/
def intern (p : Pool) (s : String) : UInt32 × Pool :=
  match p.index.lookup s with
  | some i => (i, p)
  | none =>
    let i := UInt32.ofNat p.strings.length
    (i, { strings := p.strings ++ [s], index := (s, i) :: p.index })

/-- Appends a text read from a file; the index keeps the first position of a text. -/
def append (p : Pool) (s : String) : Pool where
  strings := p.strings ++ [s]
  index :=
    if (p.index.lookup s).isSome then p.index
    else (s, UInt32.ofNat p.strings.length) :: p.index

/-- The text with the given index. -/
def get (p : Pool) (i : UInt32) : Except DecodeError String :=
  match p.strings[i.toNat]? with
  | some s => .ok s
  | none => .error (.indexOutOfRange .stringPool i p.strings.length)

/-- The bytes of a pool. -/
def encode (p : Pool) : Bytes :=
  count p.strings.length ++ p.strings.flatMap string

/-- Reads a pool. -/
def decode : Decoder DecodeError Pool := do
  return (← Decoder.counted Decoder.string).foldl append {}

end Pool

/-- Writes a name as its index. -/
def emitName (s : String) : Emit Bytes := do
  return word32 (← modifyGet (·.intern s))

/-- Writes items one after the other. -/
def emitAll {α : Type} (emit : α → Emit Bytes) : List α → Emit Bytes
  | [] => return []
  | a :: rest => do return (← emit a) ++ (← emitAll emit rest)

/-- Writes items behind their number. -/
def emitList {α : Type} (emit : α → Emit Bytes) (items : List α) : Emit Bytes := do
  return count items.length ++ (← emitAll emit items)

/-- Reads a name through its index. -/
def decodeName (p : Pool) : Decoder DecodeError String := do
  match p.get (← Decoder.word32) with
  | .ok s => return s
  | .error e => throw e

end ScriptCompiler.Metadata
