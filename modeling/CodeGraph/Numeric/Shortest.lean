import CodeGraph.Numeric.Floating

/-!
# Shortest decimal text

The decimal number written for a `Double` is the nearest among those with the fewest digits that
read back as the same number. `Decimal.shortest` looks for it on the grids of 1, 2, … 17 digits with
exact integer arithmetic: the first grid that has a point inside the rounding interval wins.

`Decimal.render` writes plain positional digits while the decimal point lies close to them and an
exponent otherwise.
-/

namespace CodeGraph

/-- The number `digits * 10 ^ exponent`. -/
structure Decimal where
  digits : Nat
  exponent : Int
deriving DecidableEq, Inhabited

namespace Decimal

/-- `x * 2 ^ q * 10 ^ (-e)` as a fraction. -/
def scaled (x : Nat) (q e : Int) : Nat × Nat :=
  (x * Nat.pow 2 q.toNat * Nat.pow 10 (-e).toNat, Nat.pow 2 (-q).toNat * Nat.pow 10 e.toNat)

/-- The numbers around `m * 2 ^ q` that round to it: bounds in quarters of `2 ^ q`, and whether the
bounds themselves belong. -/
structure Interval where
  m : Nat
  q : Int
  low : Nat
  high : Nat
  closed : Bool

/-- The interval of a finite positive number. -/
def Interval.ofDouble (x : Double) : Interval :=
  let biased := ((x.bits >>> 52) &&& 0x7ff).toNat
  let fraction := (x.bits &&& 0x000fffffffffffff).toNat
  let m := if biased = 0 then fraction else fraction + 0x10000000000000
  let q : Int := (if biased = 0 then 1 else biased : Nat) - 1075
  let below := if fraction = 0 && 1 < biased then 1 else 2
  ⟨m, q, 4 * m - below, 4 * m + 2, m % 2 = 0⟩

/-- Whether `d * 10 ^ e` lies in the interval. -/
def Interval.holds (i : Interval) (d : Nat) (e : Int) : Bool :=
  let lo := scaled i.low (i.q - 2) e
  let hi := scaled i.high (i.q - 2) e
  if i.closed then lo.1 ≤ d * lo.2 && d * hi.2 ≤ hi.1 else lo.1 < d * lo.2 && d * hi.2 < hi.1

/-- The interval's point on the grid of multiples of `10 ^ e`, the nearer one if two lie inside. -/
def Interval.onGrid? (i : Interval) (e : Int) : Option Decimal :=
  let v := scaled i.m i.q e
  let down := v.1 / v.2
  let up := down + 1
  let nearerDown := 2 * (v.1 - down * v.2) < v.2 ||
    (2 * (v.1 - down * v.2) == v.2 && down % 2 == 0)
  match i.holds down e, i.holds up e with
  | true, true => some ⟨if nearerDown then down else up, e⟩
  | true, false => some ⟨down, e⟩
  | false, true => some ⟨up, e⟩
  | false, false => none

/-- The number of decimal digits of a natural number. -/
def digitCount (n : Nat) : Nat := (Nat.toDigits 10 n).length

/-- The position of the leading digit: the `k` with `10 ^ k ≤ m * 2 ^ q < 10 ^ (k + 1)`. -/
def leading (m : Nat) (q : Int) : Int :=
  if 0 ≤ q then digitCount (m * Nat.pow 2 q.toNat) - 1
  else
    -- Scaled by a power of ten that leaves more than 17 digits before the point.
    let shift : Nat := (-q).toNat + 20
    (digitCount (m * Nat.pow 10 shift / Nat.pow 2 (-q).toNat) : Int) - 1 - shift

/-- Leave out zeros at the end of the digits. -/
def strip (fuel : Nat) (d : Decimal) : Decimal :=
  match fuel with
  | 0 => d
  | fuel + 1 => if d.digits % 10 = 0 then strip fuel ⟨d.digits / 10, d.exponent + 1⟩ else d

/-- The shortest decimal number that reads back as a finite positive number. -/
def shortest (x : Double) : Decimal :=
  let i := Interval.ofDouble x
  let k := leading i.m i.q
  let found := (List.range 17).findSome? fun (n : Nat) => i.onGrid? (k - n)
  strip 20 (found.getD ⟨0, 0⟩)

/-- Write a positive decimal number: positional while at most 16 digits stand before the point or at
most four zeros follow it, else with an exponent. -/
def render (d : Decimal) : String :=
  let ds := Nat.toDigits 10 d.digits
  let point : Int := ds.length + d.exponent
  if 0 ≤ d.exponent && point ≤ 16 then
    String.ofList (ds ++ List.replicate d.exponent.toNat '0' ++ ['.', '0'])
  else if 0 < point && point ≤ 16 then
    String.ofList (ds.take point.toNat ++ ['.'] ++ ds.drop point.toNat)
  else if -5 < point && point ≤ 0 then
    String.ofList (['0', '.'] ++ List.replicate (-point).toNat '0' ++ ds)
  else
    let rest := ds.drop 1
    String.ofList (ds.take 1 ++ (if rest.isEmpty then [] else '.' :: rest) ++ ['e']) ++
      toString (point - 1)

end Decimal

namespace Double

/-- The shortest text of a finite number, with its sign. -/
def render (x : Double) : String :=
  let size : Double := ⟨x.bits &&& 0x7fffffffffffffff⟩
  (if x.isNegative then "-" else "") ++
    (if size = zero then "0.0" else (Decimal.shortest size).render)

end Double

end CodeGraph
