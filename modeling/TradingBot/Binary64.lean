import TradingBot.Rounding

/-!
# Binary floating-point numbers

**The type** (`Binary64`). A finite number of the 64-bit format: a sign, a whole mantissa and a
power of two. A *standard* one has a mantissa below `2 ^ 53` that is either at least `2 ^ 52` or
stands at the least exponent.

**Rounding** (`nearest`). A quotient of whole numbers becomes the nearest number of the format,
half to even; beyond the largest one there is none.

**Shortest text** (`text`). The fewest digits that lead back to the number, in plain notation
without an exponent. The number stands for all reals that round to it. On the grid of decimals with
a given count of digits it has two neighbours, and the first grid with a neighbour among those reals
gives the digits.
-/

namespace TradingBot

/-- The number `± mantissa * 2 ^ exponent`. -/
structure Binary64 where
  negative : Bool
  mantissa : Nat
  exponent : Int
deriving DecidableEq, Repr

namespace Binary64

/-- The exponent of the numbers closest to zero. -/
def leastExponent : Int := -1074

/-- The exponent of the numbers furthest from zero. -/
def greatestExponent : Int := 971

/-- Mantissas have at most this many bits. -/
def precision : Nat := 53

def zero (negative : Bool) : Binary64 := ⟨negative, 0, leastExponent⟩

def isZero (x : Binary64) : Bool := x.mantissa == 0

/-! ## Rounding -/

/-- `num / (den * 2 ^ e)` as a quotient of whole numbers. -/
def scaled (num den : Nat) (e : Int) : Nat × Nat :=
  if 0 ≤ e then (num, den * pow2 e.toNat) else (num * pow2 (-e).toNat, den)

/-- The exponent at which `num / den` has a full mantissa, but not below the least. -/
def exponentFor (num den : Nat) : Int :=
  let guess : Int := (num.log2 : Int) - den.log2 - (precision - 1 : Nat)
  let (n, d) := scaled num den guess
  max leastExponent (if n / d < pow2 (precision - 1) then guess - 1 else guess)

/-- The number nearest to `± num / den`, if it is in range. -/
def nearest (negative : Bool) (num den : Nat) : Option Binary64 :=
  if num = 0 then some (zero negative)
  else
    let e := exponentFor num den
    let (n, d) := scaled num den e
    let m := roundDiv .toEven n d
    let (m, e) := if m = pow2 precision then (pow2 (precision - 1), e + 1) else (m, e)
    if greatestExponent < e then none else some ⟨negative, m, e⟩

def ofNat? (n : Nat) : Option Binary64 := nearest false n 1

/-- The magnitude as a quotient of whole numbers. -/
def magnitude (x : Binary64) : Nat × Nat :=
  (x.mantissa * pow2 x.exponent.toNat, pow2 (-x.exponent).toNat)

def mul? (x y : Binary64) : Option Binary64 :=
  nearest (x.negative ^^ y.negative) (x.magnitude.1 * y.magnitude.1) (x.magnitude.2 * y.magnitude.2)

/-- The quotient; there is none for a divisor of zero. -/
def div? (x y : Binary64) : Option Binary64 :=
  if y.isZero then none
  else nearest (x.negative ^^ y.negative) (x.magnitude.1 * y.magnitude.2)
    (x.magnitude.2 * y.magnitude.1)

/-- Decimals with more digits before the point than this are out of range. -/
def mostWholeDigits : Int := 309

/-- Decimals with more zeros after the point than this round to zero. -/
def mostLeadingZeros : Int := 324

/-- The number nearest to `± coeff * 10 ^ power`. -/
def ofDecimal? (negative : Bool) (coeff : Nat) (power : Int) : Option Binary64 :=
  if coeff = 0 then some (zero negative)
  else
    let whole := (Nat.toDigits 10 coeff).length + power
    if mostWholeDigits < whole then none
    else if whole < -mostLeadingZeros then some (zero negative)
    else nearest negative (coeff * pow10 power.toNat) (pow10 (-power).toNat)

/-! ## Shortest digits -/

/-- The reals that round to a number: they lie between `low / unit` and `high / unit`, with the ends
if `closed`, around `value / unit`. -/
structure Cell where
  low : Nat
  value : Nat
  high : Nat
  unit : Nat
  closed : Bool

/-- Quarters of the last place are fine enough to name the ends. Below a power of two the numbers
lie twice as close. -/
def cell (x : Binary64) : Cell :=
  let e := x.exponent - 2
  let unit := pow2 (-e).toNat
  let scale := pow2 e.toNat
  let m := 4 * x.mantissa
  let below := if x.mantissa = pow2 (precision - 1) ∧ leastExponent < x.exponent then 1 else 2
  { low := (m - below) * scale, value := m * scale, high := (m + 2) * scale, unit
    closed := x.mantissa % 2 = 0 }

def Cell.contains (c : Cell) (n : Nat) (power : Int) : Bool :=
  let v := n * pow10 power.toNat * c.unit
  let s := pow10 (-power).toNat
  if c.closed then c.low * s ≤ v && v ≤ c.high * s else c.low * s < v && v < c.high * s

/-- The neighbour in the cell on the grid of step `10 ^ power`; of two the nearer, of two equally
near the larger. -/
def Cell.neighbour? (c : Cell) (power : Int) : Option Nat :=
  let num := c.value * pow10 (-power).toNat
  let den := c.unit * pow10 power.toNat
  let n := num / den
  match c.contains n power, c.contains (n + 1) power with
  | true, true => some (if 2 * (num % den) < den then n else n + 1)
  | true, false => some n
  | false, true => some (n + 1)
  | false, false => none

/-- The number of digits before the point; for a number below one, minus the zeros after it. -/
def Cell.decade (c : Cell) : Int :=
  if c.unit ≤ c.value then (Nat.toDigits 10 (c.value / c.unit)).length
  else 1 - ((Nat.toDigits 10 (c.unit / c.value)).length : Int)

/-- So many digits tell all numbers of the format apart. -/
def enoughDigits : Nat := 17

/-- Tries grids of more and more digits. -/
def Cell.search (c : Cell) (decade : Int) (digits : Nat) : Nat → Nat × Int
  | 0 => (c.value / c.unit, 0)
  | fuel + 1 =>
    let power := decade - digits
    match c.neighbour? power with
    | some n => (n, power)
    | none => c.search decade (digits + 1) fuel

/-- The shortest decimal `coeff * 10 ^ power` that leads back to a number other than zero. -/
def shortest (x : Binary64) : Nat × Int :=
  let c := x.cell
  c.search c.decade 1 enoughDigits

/-! ## Text -/

/-- `coeff * 10 ^ power` in plain notation. -/
def plain (coeff : Nat) (power : Int) : List Char :=
  if 0 ≤ power then Nat.toDigits 10 coeff ++ List.replicate power.toNat '0'
  else
    let places := (-power).toNat
    let ds := Nat.toDigits 10 coeff
    let ds := List.replicate (places + 1 - ds.length) '0' ++ ds
    let fraction := ((ds.drop (ds.length - places)).reverse.dropWhile (· == '0')).reverse
    ds.take (ds.length - places) ++ (if fraction = [] then [] else '.' :: fraction)

/-- The shortest text that leads back to the number, without an exponent. -/
def text (x : Binary64) : String :=
  let digits := if x.isZero then ['0'] else plain x.shortest.1 x.shortest.2
  String.ofList (if x.negative then '-' :: digits else digits)

end Binary64

end TradingBot
