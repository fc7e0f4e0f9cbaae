/-!
# Doubles and their shortest decimal text

A finite double is a whole number of units, each unit a power of two. Rounding a ratio to the
nearest double, multiplying and dividing are done exactly on whole numbers. The text of a double is
the shortest decimal that rounds back to it.
-/

namespace CompileFlags

/-- A non-negative finite double, `units * 2 ^ exponent`. -/
structure Binary64 where
  units : Nat
  exponent : Int
  deriving DecidableEq, Repr

namespace Binary64

def zero : Binary64 := ⟨0, 0⟩

/-- The exponent of the smallest positive double. -/
def minExponent : Int := -1074

/-- The exponent of the largest finite double. -/
def maxExponent : Int := 971

/-- The whole number nearest to `num / den`; a half goes to the even neighbour. -/
def roundDiv (num den : Nat) : Nat :=
  let q := num / den
  let r := num % den
  if 2 * r < den then q else if den < 2 * r then q + 1 else q + q % 2

/-- Scale a ratio by `2 ^ (-e)`. -/
def scaled (num den : Nat) (e : Int) : Nat × Nat :=
  if e < 0 then (num * Nat.pow 2 e.natAbs, den) else (num, den * Nat.pow 2 e.natAbs)

/-- The exponent at which a positive ratio has 53 bits before the point, or the least one. -/
def exponentOf (num den : Nat) : Int :=
  let e : Int := (num.log2 : Int) - (den.log2 : Int) - 52
  let (n, d) := scaled num den e
  max (if n < d * Nat.pow 2 52 then e - 1 else e) minExponent

/-- The double nearest to `num / den`, or none beyond the largest finite one. -/
def nearest (num den : Nat) : Option Binary64 :=
  if num = 0 then some zero
  else
    let e := exponentOf num den
    let (n, d) := scaled num den e
    let m := roundDiv n d
    let (m, e) := if m = Nat.pow 2 53 then (Nat.pow 2 52, e + 1) else (m, e)
    if m = 0 then some zero else if maxExponent < e then none else some ⟨m, e⟩

def toRatio (x : Binary64) : Nat × Nat :=
  if x.exponent < 0 then (x.units, Nat.pow 2 x.exponent.natAbs)
  else (x.units * Nat.pow 2 x.exponent.natAbs, 1)

def mul (x y : Binary64) : Option Binary64 :=
  nearest (x.toRatio.1 * y.toRatio.1) (x.toRatio.2 * y.toRatio.2)

/-- Division by a positive double. -/
def div (x y : Binary64) : Option Binary64 :=
  nearest (x.toRatio.1 * y.toRatio.2) (x.toRatio.2 * y.toRatio.1)

end Binary64

/-- A decimal, `digits * 10 ^ exponent`. -/
structure Decimal where
  digits : Nat
  exponent : Int
  deriving DecidableEq, Repr

namespace Decimal

/-- Scale a ratio by `10 ^ (-e)`. -/
def scaled (num den : Nat) (e : Int) : Nat × Nat :=
  if e < 0 then (num * Nat.pow 10 e.natAbs, den) else (num, den * Nat.pow 10 e.natAbs)

/-- The interval of ratios that round to a positive double, in quarter units: its ends, and
whether they belong to it. -/
def interval (x : Binary64) : Nat × Nat × Bool :=
  let below := if x.units = Nat.pow 2 52 ∧ Binary64.minExponent < x.exponent then 1 else 2
  (4 * x.units - below, 4 * x.units + 2, x.units % 2 == 0)

/-- Does `n * 10 ^ e` round to the double? -/
def roundsTo (x : Binary64) (n : Nat) (e : Int) : Bool :=
  let (low, high, closed) := interval x
  let (p, q) := scaled n 1 (-e)
  let (p, q) := Binary64.scaled (4 * p) q x.exponent
  if closed then low * q ≤ p && p ≤ high * q else low * q < p && p < high * q

/-- Of two neighbours on the grid of step `10 ^ e` around a double, the one that rounds to it;
of two, the nearer, and on a tie the even one. -/
def neighbour? (x : Binary64) (e : Int) : Option Nat :=
  let (n, d) := scaled x.toRatio.1 x.toRatio.2 e
  let low := n / d
  match roundsTo x low e, roundsTo x (low + 1) e with
  | true, true => some (Binary64.roundDiv n d)
  | true, false => some low
  | false, true => some (low + 1)
  | false, false => none

/-- The decimal exponent of the leading digit of a positive ratio. -/
def leading (num den : Nat) : Int :=
  if den ≤ num then (Nat.toDigits 10 (num / den)).length - 1
  else
    let k : Nat := (Nat.toDigits 10 (den / num)).length
    if den ≤ num * Nat.pow 10 (k - 1) then -((k : Int) - 1) else -(k : Int)

/-- Drop final zeros, at most `fuel` of them. -/
def trim : Nat → Decimal → Decimal
  | 0, d => d
  | fuel + 1, d =>
    if d.digits ≠ 0 ∧ d.digits % 10 = 0 then trim fuel ⟨d.digits / 10, d.exponent + 1⟩ else d

/-- The shortest decimal that rounds to a double, and of those the nearest. -/
def shortest (x : Binary64) : Decimal :=
  if x.units = 0 then ⟨0, 0⟩
  else
    let top := leading x.toRatio.1 x.toRatio.2
    let hit := (List.range 17).findSome? fun (k : Nat) ↦
      (neighbour? x (top - k)).map fun n ↦ Decimal.mk n (top - k)
    trim 20 (hit.getD ⟨0, 0⟩)

def zeros (n : Nat) : List Char :=
  List.replicate n '0'

/-- The text of a decimal: positional while the leading digit is worth at least `10 ^ (-5)` and
less than `10 ^ 16`, with the exponent otherwise; a whole number keeps one zero after the point. -/
def text (d : Decimal) : String :=
  let ds := Nat.toDigits 10 d.digits
  let top : Int := d.exponent + ds.length - 1
  String.ofList <|
    if d.digits = 0 then ['0', '.', '0']
    else if top < -5 ∨ 16 ≤ top then
      let mantissa := match ds with
        | [c] => [c]
        | c :: cs => c :: '.' :: cs
        | [] => []
      mantissa ++ 'e' :: (if top < 0 then '-' else '+') :: Nat.toDigits 10 top.natAbs
    else if 0 ≤ d.exponent then ds ++ zeros d.exponent.natAbs ++ ['.', '0']
    else if 0 ≤ top then
      ds.take (top.natAbs + 1) ++ '.' :: ds.drop (top.natAbs + 1)
    else '0' :: '.' :: zeros (top.natAbs - 1) ++ ds

end Decimal

end CompileFlags
