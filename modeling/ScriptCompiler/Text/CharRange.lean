/-!
# Sets of code points

A property of characters is a list of closed ranges of code points.  The ranges stand in ascending
order, so a long table is written by the distances between their ends.
-/

namespace ScriptCompiler.Text

/-- The closed ranges behind `last`: for each of them, how far it begins behind the one before and
how far it reaches. -/
def rangesFrom (last : Nat) : List Nat → List (Nat × Nat)
  | gap :: reach :: rest =>
    (last + gap, last + gap + reach) :: rangesFrom (last + gap + reach) rest
  | _ => []

/-- Whether the code point `n` lies in one of the closed ranges of `table`. -/
def inRanges (table : List (Nat × Nat)) (n : Nat) : Bool :=
  table.any fun r => r.1 ≤ n && n ≤ r.2

end ScriptCompiler.Text
