import ScriptCompiler.Source.Tree

/-!
# Lambdas of a body

A pass before lowering finds the lambdas of a body as a forest and notes for each one whether its
own statements read `this`.  The table lists them in pre-order, and a lambda uses `this` if it or
any lambda inside it reads it.
-/

namespace ScriptCompiler

/-- A lambda with the lambdas directly inside it. -/
inductive LambdaTree where
  | mk (id : LambdaId) (readsThis : Bool) (nested : List LambdaTree)
deriving Repr, Inhabited

/-- An entry of the table of lambdas. -/
structure LambdaEntry where
  id : LambdaId
  /-- Whether the lambda or one inside it reads `this`. -/
  usesThis : Bool
deriving DecidableEq, Repr, Inhabited

/-- The lambdas of one body. -/
structure LambdaTable where
  entries : List LambdaEntry := []
  /-- Ids with the positions of their entries, the last one first. -/
  index : List (LambdaId × Nat) := []
deriving DecidableEq, Repr, Inhabited

namespace LambdaTable

/-- Adds an entry at the end. -/
def push (t : LambdaTable) (entry : LambdaEntry) : LambdaTable where
  entries := t.entries ++ [entry]
  index := (entry.id, t.entries.length) :: t.index

/-- Completes the entry at a position. -/
def complete (t : LambdaTable) (position : Nat) (usesThis : Bool) : LambdaTable :=
  { t with entries := t.entries.modify position ({ · with usesThis }) }

mutual

/-- Adds a lambda and the lambdas inside it, and tells whether one of them reads `this`.  The entry
of the lambda comes first, and is completed when those inside are known. -/
def insert (t : LambdaTable) : LambdaTree → Bool × LambdaTable
  | .mk id readsThis nested =>
    let inside := (t.push { id, usesThis := readsThis }).insertAll nested
    let usesThis := readsThis || inside.1
    (usesThis, inside.2.complete t.entries.length usesThis)

/-- Adds the lambdas of a forest, and tells whether one of them reads `this`. -/
def insertAll (t : LambdaTable) : List LambdaTree → Bool × LambdaTable
  | [] => (false, t)
  | tree :: rest =>
    let first := t.insert tree
    let others := first.2.insertAll rest
    (first.1 || others.1, others.2)

end

/-- The table of a forest. -/
def ofForest (roots : List LambdaTree) : LambdaTable :=
  (insertAll {} roots).2

/-- Number of entries. -/
def size (t : LambdaTable) : Nat :=
  t.entries.length

/-- The entry of a lambda; of several with the same id, the last one. -/
def get? (t : LambdaTable) (id : LambdaId) : Option LambdaEntry :=
  (t.index.lookup id).bind (t.entries[·]?)

end LambdaTable

end ScriptCompiler
