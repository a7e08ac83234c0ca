import Wadl.Number.Numeral

/-!
# Binary floating-point numbers of 64 bits

A finite value is `mantissa · 2 ^ exponent` with a mantissa below `2 ^ 53`. `ofRatio` rounds a
quotient to the nearest value, ties to the even mantissa; `shortest` finds the decimal with the
fewest digits that rounds back to the value, the nearest of those. Everything is exact arithmetic on
natural numbers.
-/

namespace Wadl

/-- A number of the 64-bit binary format. -/
inductive Binary64 where
  | nan
  | infinite (negative : Bool)
  | finite (negative : Bool) (mantissa : Nat) (exponent : Int)
  deriving DecidableEq, Repr, Inhabited

namespace Binary64

/-- The quotient rounded to the nearest whole number, ties to the even one. -/
def roundDiv (num den : Nat) : Nat :=
  let q := num / den
  let twice := 2 * (num % den)
  if den < twice ∨ (twice = den ∧ q % 2 = 1) then q + 1 else q

/-- `num · 2 ^ e` as a quotient. -/
def scaleTwo (num : Nat) (e : Int) : Nat × Nat :=
  if 0 ≤ e then (num * Nat.pow 2 e.toNat, 1) else (num, Nat.pow 2 (-e).toNat)

/-- The exponent of the value nearest to `num / den`, before rounding. -/
def exponentFor (num den : Nat) : Int :=
  let e : Int := (Nat.log2 num : Int) - Nat.log2 den - 52
  let (n, d) := scaleTwo num (-e)
  let e := if n < d * den * Nat.pow 2 52 then e - 1 else e
  max e (-1074)

/-- The value nearest to `num / den`. -/
def ofRatio (negative : Bool) (num den : Nat) : Binary64 :=
  if num = 0 then .finite negative 0 (-1074)
  else
    let e := exponentFor num den
    let (n, d) := scaleTwo num (-e)
    let m := roundDiv n (d * den)
    let (m, e) := if m = Nat.pow 2 53 then (Nat.pow 2 52, e + 1) else (m, e)
    if 971 < e then .infinite negative else .finite negative m e

/-- The number of decimal digits of `n`. -/
def digitCount (n : Nat) : Nat := (Nat.toDigits 10 n).length

/-- The value nearest to `digits · 10 ^ exponent`. -/
def ofScientific (negative : Bool) (digits : Nat) (exponent : Int) : Binary64 :=
  let size : Int := digitCount digits + exponent
  if digits = 0 ∨ size < -400 then .finite negative 0 (-1074)
  else if 400 < size then .infinite negative
  else if 0 ≤ exponent then ofRatio negative (digits * Nat.pow 10 exponent.toNat) 1
  else ofRatio negative digits (Nat.pow 10 (-exponent).toNat)

/-- The value nearest to a whole number. -/
def ofInt (i : Int) : Binary64 := ofRatio (i < 0) i.natAbs 1

/-- The value nearest to a decimal numeral. -/
def ofDecimal : Numeral.Decimal → Binary64
  | .nan => .nan
  | .infinite negative => .infinite negative
  | .finite negative digits exponent => ofScientific negative digits exponent

/-- A value's whole number, if it is one. -/
def toInt? : Binary64 → Option Int
  | .finite negative m e =>
    let (n, d) := scaleTwo m e
    if n % d = 0 then some (if negative then -(n / d : Nat) else (n / d : Nat)) else none
  | _ => none

/-! ## The shortest decimal -/

/-- The least `k` with `num / den < 10 ^ k`, for a positive quotient. -/
def magnitude (num den : Nat) : Int :=
  if den ≤ num then digitCount (num / den)
  else 1 - (digitCount ((den + num - 1) / num - 1) : Int)

/-- A range of quotients over one denominator, with its ends if `closed`. -/
structure Interval where
  low : Nat
  high : Nat
  den : Nat
  closed : Bool

/-- Whether `c · 10 ^ e` lies in the range. -/
def Interval.holds (i : Interval) (c : Nat) (e : Int) : Bool :=
  let (n, d) := if 0 ≤ e then (c * Nat.pow 10 e.toNat, 1) else (c, Nat.pow 10 (-e).toNat)
  if i.closed then i.low * d ≤ n * i.den && n * i.den ≤ i.high * d
  else i.low * d < n * i.den && n * i.den < i.high * d

/-- The numbers that round to `m · 2 ^ e`, in quarters of its unit. -/
def interval (m : Nat) (e : Int) : Interval :=
  let (unit, den) := scaleTwo 1 (e - 2)
  let below := if m = Nat.pow 2 52 ∧ -1074 < e then 1 else 2
  ⟨(4 * m - below) * unit, (4 * m + 2) * unit, den, m % 2 = 0⟩

/-- The point of the grid of step `10 ^ e` that lies in the range next to `num / den`, if any. -/
def gridPoint (i : Interval) (num den : Nat) (e : Int) : Option Nat :=
  let (n, d) := if 0 ≤ e then (num, den * Nat.pow 10 e.toNat)
    else (num * Nat.pow 10 (-e).toNat, den)
  let c := n / d
  match i.holds c e, i.holds (c + 1) e with
  | true, true => some (roundDiv n d)
  | true, false => some c
  | false, true => some (c + 1)
  | false, false => none

/-- The first grid, from the coarse ones on, that has a point in the range. -/
def search (i : Interval) (num den : Nat) (k : Int) : List Nat → Nat × Int
  | [] => (0, 0)
  | n :: ns =>
    match gridPoint i num den (k - n) with
    | some c => (c, k - n)
    | none => search i num den k ns

/-- Moves trailing zeros of the digits into the exponent. -/
def stripZeros : Nat → Nat → Int → Nat × Int
  | 0, c, e => (c, e)
  | fuel + 1, c, e => if c ≠ 0 ∧ c % 10 = 0 then stripZeros fuel (c / 10) (e + 1) else (c, e)

/-- The decimal of fewest digits that rounds to `m · 2 ^ e`, as digits and power of ten. -/
def shortest (m : Nat) (e : Int) : Nat × Int :=
  let (num, den) := scaleTwo m e
  let (c, e10) := search (interval m e) num den (magnitude num den) ((List.range 17).map (· + 1))
  stripZeros 20 c e10

/-! ## Text -/

/-- Zeros. -/
def zeros (n : Nat) : List Char := List.replicate n '0'

/-- Digits with a point and at least one digit after it, for `digits · 10 ^ exponent`. -/
def positional (ds : List Char) (exponent : Int) : List Char :=
  let point : Int := ds.length + exponent
  if point ≤ 0 then '0' :: '.' :: zeros (-point).toNat ++ ds
  else if 0 ≤ exponent then ds ++ zeros exponent.toNat ++ ['.', '0']
  else ds.take point.toNat ++ '.' :: ds.drop point.toNat

/-- Digits with an exponent of at least two digits. -/
def scientific (ds : List Char) (exponent : Int) : List Char :=
  let power : Int := ds.length + exponent - 1
  let head := ds.take 1
  let tail := ds.drop 1
  let ps := Nat.toDigits 10 power.natAbs
  head ++ (if tail.isEmpty then [] else '.' :: tail) ++
    ['e', if power < 0 then '-' else '+'] ++ zeros (2 - ps.length) ++ ps

/-- The text of a value: the shortest decimal, positional from `10 ^ -4` to below `10 ^ 16`. -/
def text : Binary64 → String
  | .nan => "nan"
  | .infinite negative => if negative then "-inf" else "inf"
  | .finite negative m e =>
    let sign := if negative then ['-'] else []
    if m = 0 then String.ofList (sign ++ ['0', '.', '0'])
    else
      let (c, e10) := shortest m e
      let ds := Nat.toDigits 10 c
      let power : Int := ds.length + e10 - 1
      String.ofList (sign ++
        if -4 ≤ power ∧ power < 16 then positional ds e10 else scientific ds e10)

end Binary64

/-- The 64-bit number that a text writes. -/
def readBinary64 (s : String) : Option Binary64 := (readDecimal s).map Binary64.ofDecimal

end Wadl
