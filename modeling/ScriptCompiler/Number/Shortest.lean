import ScriptCompiler.Number.Double

/-!
# The shortest decimal of a number

The decimals that read back as a given double form an interval around it, closed exactly when the
significand is even.  The number is written by a multiple of the coarsest power of ten that has a
multiple in this interval.  The multiples nearest to the number are tried first below and then
above it; of two that both read back the nearer is taken, and a tie goes up.

All comparisons are made between natural numbers.  A finite double is `4 * significand` units of
`2 ^ (scale - 1076)`; after multiplication by `2 ^ 1076` and by a power of ten no fraction is left.
-/

namespace ScriptCompiler.Double

/-- The decimals that read back as one number, as an interval around it in units of
`2 ^ -1076`. -/
structure ReadBack where
  low : Nat
  value : Nat
  high : Nat
  /-- Whether the two ends belong to the interval. -/
  closed : Bool

/-- The interval of a finite number. -/
def readBack (d : Double) : ReadBack :=
  let unit := Nat.pow 2 d.scale
  { low := (4 * d.significand - if d.isBinadeStart then 1 else 2) * unit
    value := 4 * d.significand * unit
    high := (4 * d.significand + 2) * unit
    closed := d.significand % 2 == 0 }

/-- Whether the multiple `n * num` of a grid lies in the interval scaled by `den`, where one step
of the grid is `num / den` units. -/
def ReadBack.contains (r : ReadBack) (num den n : Nat) : Bool :=
  if r.closed then r.low * den ≤ n * num && n * num ≤ r.high * den
  else r.low * den < n * num && n * num < r.high * den

/-- The multiple of the step `num / den` that writes the number, if one does: the neighbours below
and above the number are tried, the nearer one wins, a tie goes up. -/
def ReadBack.onGrid? (r : ReadBack) (num den : Nat) : Option Nat :=
  let below := r.value * den / num
  let rest := r.value * den % num
  match r.contains num den below, r.contains num den (below + 1) with
  | true, true => some (if num ≤ 2 * rest then below + 1 else below)
  | true, false => some below
  | false, true => some (below + 1)
  | false, false => none

/-- One step of the grid of multiples of `10 ^ k`, as a fraction of units of `2 ^ -1076`. -/
def gridStep (k : Int) : Nat × Nat :=
  let unit := Nat.pow 2 1076
  if 0 ≤ k then (Nat.pow 10 k.toNat * unit, 1) else (unit, Nat.pow 10 k.natAbs)

/-- Tries the grids of `10 ^ k`, `10 ^ (k - 1)`, … for `steps` steps and answers the first multiple
that reads back, with its power of ten. -/
def ReadBack.search (r : ReadBack) : Nat → Int → Nat × Int
  | 0, k => (0, k)
  | steps + 1, k =>
    let (num, den) := gridStep k
    match r.onGrid? num den with
    | some n => (n, k)
    | none => r.search steps (k - 1)

/-- The decimal `n * 10 ^ k` that writes a finite number other than zero.  No double exceeds
`10 ^ 309`, and each one is a multiple of `10 ^ -1074`.  The significand ends in no zero, as
otherwise a coarser grid had been taken. -/
def shortest (d : Double) : Nat × Int :=
  d.readBack.search (309 + 1074 + 1) 309

/-- The decimal `n * 10 ^ k` in positional form, without an exponent. -/
def positional (n : Nat) (k : Int) : String :=
  let digits := Nat.toDigits 10 n
  if 0 ≤ k then String.ofList (digits ++ List.replicate k.toNat '0')
  else
    let places := k.natAbs
    if digits.length ≤ places then
      "0." ++ String.ofList (List.replicate (places - digits.length) '0' ++ digits)
    else
      String.ofList (digits.take (digits.length - places)) ++ "."
        ++ String.ofList (digits.drop (digits.length - places))

/-- The text of a number: `NaN`, an infinity, or a sign and the shortest decimal in positional
form.  The negative zero keeps its sign. -/
def text (d : Double) : String :=
  if d.isNaN then "NaN"
  else
    let sign := if d.isSignNegative then "-" else ""
    if d.isInfinite then sign ++ "Infinity"
    else if d.isZero then sign ++ "0"
    else
      let (n, k) := d.shortest
      sign ++ positional n k

end ScriptCompiler.Double
