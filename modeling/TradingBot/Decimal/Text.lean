import TradingBot.Decimal.Basic

/-!
# Decimal text

**Writing** (`render`). Plain notation with exactly `scale` fraction digits: `1.50`, `0.00`, `-2`.

**Reading** (`parse`). An optional sign, digits and at most one point; `_` may stand anywhere after
the first digit. The fraction digits give the scale. The first digit that does not fit rounds what
was read, half up in magnitude, and ends the reading; a whole part that does not fit is refused.

**Scientific text.** Text that is not plain may be a plain base, `e` or `E`, and an exponent of at
most 28: a negative one lengthens the fraction, a positive one shortens it or makes the number
whole.
-/

namespace TradingBot.Decimal

/-! ## Writing -/

/-- The digits of the coefficient, enough of them for one before the point. -/
def digits (d : Decimal) : List Char :=
  let ds := Nat.toDigits 10 d.coeff.natAbs
  List.replicate (d.scale + 1 - ds.length) '0' ++ ds

def render (d : Decimal) : String :=
  let ds := d.digits
  let whole := ds.take (ds.length - d.scale)
  let fraction := ds.drop (ds.length - d.scale)
  String.ofList <|
    (if d.coeff < 0 then ['-'] else []) ++ whole ++
      (if d.scale = 0 then [] else '.' :: fraction)

instance : ToString Decimal := ⟨render⟩

/-! ## Reading plain text -/

/-- What has been read of a number: the digits as one whole number, how many of them follow the
point, whether the point and any digit have been met. -/
structure Reading where
  coeff : Nat := 0
  places : Nat := 0
  point : Bool := false
  started : Bool := false

namespace Reading

/-- The reading as coefficient and scale, if there was a digit. -/
def done (r : Reading) : Option (Nat × Nat) := if r.started then some (r.coeff, r.places) else none

/-- One more unit in the last place, at one place fewer if the coefficient is full. -/
def roundUp (r : Reading) : Option (Nat × Nat) :=
  if r.coeff + 1 ≤ maxCoeff then some (r.coeff + 1, r.places)
  else if r.places = 0 then none
  else some (roundDiv .away (r.coeff + 1) 10, r.places - 1)

/-- Ends the reading at the first character that does not fit any more. -/
def cut (r : Reading) (c : Char) : Option (Nat × Nat) :=
  if c.isDigit then if '5' ≤ c then r.roundUp else some (r.coeff, r.places)
  else if c = '_' ∨ (c = '.' ∧ r.point) then some (r.coeff, r.places)
  else none

def read (r : Reading) : List Char → Option (Nat × Nat)
  | [] => r.done
  | c :: cs =>
    if r.point ∧ maxScale ≤ r.places then r.cut c
    else if c.isDigit then
      let next := r.coeff * 10 + (c.toNat - '0'.toNat)
      if next ≤ maxCoeff then
        let places := if r.point then r.places + 1 else 0
        read { r with coeff := next, places, started := true } cs
      else if r.point then r.cut c
      else none
    else if c = '.' ∧ ¬ r.point then read { r with point := true } cs
    else if c = '_' ∧ r.started then read r cs
    else none

end Reading

/-- A sign in front of unsigned text. -/
def splitSign : List Char → Bool × List Char
  | '-' :: cs => (true, cs)
  | '+' :: cs => (false, cs)
  | cs => (false, cs)

def parsePlain (cs : List Char) : Option Decimal :=
  let (negative, rest) := splitSign cs
  match Reading.read {} rest with
  | some (coeff, places) => make? (if negative then -coeff else coeff) places
  | none => none

/-! ## Reading scientific text -/

/-- Whole number text: digits only, at least one. -/
def parseDigits (cs : List Char) : Option Nat :=
  if cs ≠ [] ∧ cs.all Char.isDigit then
    some (cs.foldl (fun n c => n * 10 + (c.toNat - '0'.toNat)) 0)
  else none

/-- An exponent may have a plus sign, also behind a minus sign. -/
def parseExponent (cs : List Char) : Option Nat :=
  match cs with
  | '+' :: ds => parseDigits ds
  | ds => parseDigits ds

/-- `d / 10 ^ n`: the scale grows, and what would pass the largest scale is rounded away first. -/
def shiftRight (d : Decimal) (n : Nat) : Option Decimal :=
  if maxScale < n then none
  else if d.scale + n ≤ maxScale then make? d.coeff (d.scale + n)
  else make? (rescale .away d.coeff d.scale (maxScale - n)) maxScale

/-- `d * 10 ^ n`: the scale shrinks, or the number becomes whole. -/
def shiftLeft (d : Decimal) (n : Nat) : Option Decimal :=
  if n ≤ d.scale then make? d.coeff (d.scale - n)
  else if maxScale < n then none
  else make? (d.coeff * pow10 (n - d.scale)) 0

def parseScientific (cs : List Char) : Option Decimal :=
  let base := cs.takeWhile fun c => c != 'e' && c != 'E'
  match cs.dropWhile fun c => c != 'e' && c != 'E' with
  | [] => none
  | _ :: exponent =>
    match parsePlain base with
    | none => none
    | some d =>
      match exponent with
      | '-' :: ds => (parseExponent ds).bind d.shiftRight
      | ds => (parseExponent ds).bind d.shiftLeft

def parse (s : String) : Option Decimal :=
  match parsePlain s.toList with
  | some d => some d
  | none => parseScientific s.toList

/-! ## Amounts -/

/-- The places that an amount of money is shown with, at most. -/
def amountPlaces : Nat := 8

/-- The text of an amount: at most eight fraction digits and no trailing zeros. -/
def amount (d : Decimal) : String := ((d.roundTo amountPlaces).normalize).render

end TradingBot.Decimal
