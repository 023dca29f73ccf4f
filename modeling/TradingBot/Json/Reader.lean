import TradingBot.Json.Printer

/-!
# Reading JSON text

**Grammar** (`Json.parse`). One value with blanks around it. Arrays and objects nest at most 127
deep. In strings, control characters must be escaped, and an escaped surrogate must be one of a
pair.

**Numbers.** A whole number within the 64-bit ranges is exact. Any other becomes a floating-point
number in two steps: as many leading digits as fit 64 bits are taken as a whole number, which is
then multiplied or divided by a power of ten. Each step rounds. A result out of range is refused.
-/

namespace TradingBot.Json

/-- Arrays and objects nest at most this deep. -/
def maxDepth : Nat := 127

def isBlank (c : Char) : Bool := c == ' ' || c == '\n' || c == '\t' || c == '\r'

def skipBlanks (cs : List Char) : List Char := cs.dropWhile isBlank

/-- The rest of the text behind a literal. -/
def expect (literal : List Char) (cs : List Char) : Option (List Char) :=
  if literal.isPrefixOf cs then some (cs.drop literal.length) else none

/-! ## Numbers -/

def maxSignificand : Nat := pow2 64 - 1

def digitValue (c : Char) : Nat := c.toNat - '0'.toNat

/-- Appends digits to a significand as long as it fits, and gives the digits left over. -/
def appendDigits (n : Nat) : List Char → Nat × List Char
  | [] => (n, [])
  | c :: cs =>
    let next := n * 10 + digitValue c
    if next ≤ maxSignificand then appendDigits next cs else (n, c :: cs)

/-- The largest power of ten that one step multiplies or divides by. -/
def powerStep : Nat := 308

def powerOfTen (n : Nat) : Option Binary64 := Binary64.ofDecimal? false 1 n

/-- `x / 10 ^ n`, in steps that each round. -/
def divPower (x : Binary64) (n : Nat) : Option Binary64 :=
  if x.isZero then some x
  else if n ≤ powerStep then (powerOfTen n).bind x.div?
  else ((powerOfTen powerStep).bind x.div?).bind fun y => divPower y (n - powerStep)
termination_by n
decreasing_by simp [powerStep] at *; omega

/-- `significand * 10 ^ power` in rounded steps. -/
def floatOfParts (negative : Bool) (significand : Nat) (power : Int) : Option Binary64 := do
  let x ← Binary64.ofNat? significand
  let y ←
    if x.isZero then some x
    else if power < 0 then divPower x (-power).toNat
    else if power.toNat ≤ powerStep then (powerOfTen power.toNat).bind x.mul?
    else none
  return { y with negative }

/-- Digits at the front of a text, at least one. -/
def takeDigits (cs : List Char) : Option (List Char × List Char) :=
  match cs.takeWhile Char.isDigit with
  | [] => none
  | ds => some (ds, cs.dropWhile Char.isDigit)

/-- Digits of a whole part: a zero stands alone. -/
def takeWhole (cs : List Char) : Option (List Char × List Char) :=
  match takeDigits cs with
  | some ('0' :: _ :: _, _) => none
  | r => r

/-- An exponent behind its letter. -/
def takeExponent (cs : List Char) : Option (Int × List Char) :=
  match cs with
  | '-' :: cs => (takeDigits cs).map fun (ds, rest) => (-(Nat.ofDigitChars 10 ds 0 : Int), rest)
  | '+' :: cs => (takeDigits cs).map fun (ds, rest) => ((Nat.ofDigitChars 10 ds 0 : Int), rest)
  | cs => (takeDigits cs).map fun (ds, rest) => ((Nat.ofDigitChars 10 ds 0 : Int), rest)

/-- A whole number, or a floating-point number if it is out of range or minus zero. -/
def wholeNumber (negative : Bool) (digits : List Char) : Option Json :=
  match appendDigits 0 digits with
  | (n, []) =>
    if !negative then some (int n)
    else if n = 0 ∨ pow2 63 < n then (floatOfParts true n 0).map float
    else some (int (-n))
  | (n, rest) => (floatOfParts negative n rest.length).map float

/-- A number behind its sign. -/
def number (negative : Bool) (cs : List Char) : Option (Json × List Char) := do
  let (whole, rest) ← takeWhole cs
  let (fraction, rest') ←
    match rest with
    | '.' :: rest => takeDigits rest
    | rest => some ([], rest)
  let scientific := rest'.head?.any fun c => c == 'e' || c == 'E'
  let (exponent, rest'') ← if scientific then takeExponent (rest'.drop 1) else some (0, rest')
  if fraction = [] ∧ scientific = false then
    return (← wholeNumber negative whole, rest'')
  else
    let (n, cut) := appendDigits 0 whole
    let (n', cut') := appendDigits n fraction
    let power : Int := cut.length - (fraction.length - cut'.length : Nat) + exponent
    return (.float (← floatOfParts negative n' power), rest'')

/-! ## Strings -/

def hexValue? (c : Char) : Option Nat :=
  if '0' ≤ c ∧ c ≤ '9' then some (c.toNat - '0'.toNat)
  else if 'a' ≤ c ∧ c ≤ 'f' then some (c.toNat - 'a'.toNat + 10)
  else if 'A' ≤ c ∧ c ≤ 'F' then some (c.toNat - 'A'.toNat + 10)
  else none

/-- The number of four hexadecimal digits, and the text behind them. -/
def takeUnit : List Char → Option (Nat × List Char)
  | a :: b :: c :: d :: rest => do
    let a ← hexValue? a
    let b ← hexValue? b
    let c ← hexValue? c
    let d ← hexValue? d
    return (((a * 16 + b) * 16 + c) * 16 + d, rest)
  | _ => none

/-- The character of an escape behind its backslash, and the text behind it. -/
def takeEscape : List Char → Option (Char × List Char)
  | 'u' :: cs => do
    let (high, rest) ← takeUnit cs
    if 0xD800 ≤ high ∧ high ≤ 0xDBFF then
      let rest ← expect ['\\', 'u'] rest
      let (low, rest) ← takeUnit rest
      if 0xDC00 ≤ low ∧ low ≤ 0xDFFF then
        return (Char.ofNat (0x10000 + (high - 0xD800) * 0x400 + (low - 0xDC00)), rest)
      else none
    else if 0xDC00 ≤ high ∧ high ≤ 0xDFFF then none
    else return (Char.ofNat high, rest)
  | '"' :: cs => some ('"', cs)
  | '\\' :: cs => some ('\\', cs)
  | '/' :: cs => some ('/', cs)
  | 'b' :: cs => some ('\x08', cs)
  | 'f' :: cs => some ('\x0c', cs)
  | 'n' :: cs => some ('\n', cs)
  | 'r' :: cs => some ('\r', cs)
  | 't' :: cs => some ('\t', cs)
  | _ => none

/-- The characters of a string behind its opening quote, and the text behind the closing one. -/
def stringFrom : Nat → List Char → List Char → Option (String × List Char)
  | 0, _, _ => none
  | fuel + 1, read, cs =>
    match cs with
    | [] => none
    | '"' :: rest => some (String.ofList read.reverse, rest)
    | '\\' :: rest =>
      match takeEscape rest with
      | some (c, rest) => stringFrom fuel (c :: read) rest
      | none => none
    | c :: rest => if c.toNat < 0x20 then none else stringFrom fuel (c :: read) rest

def string (cs : List Char) : Option (String × List Char) :=
  match cs with
  | '"' :: rest => stringFrom (rest.length + 1) [] rest
  | _ => none

/-! ## Values -/

mutual

/-- A value at the front of the text; `depth` more levels may be opened. -/
def value : (fuel depth : Nat) → List Char → Option (Json × List Char)
  | 0, _, _ => none
  | fuel + 1, depth, cs =>
    match skipBlanks cs with
    | 'n' :: rest => (expect ['u', 'l', 'l'] rest).map ((null, ·))
    | 't' :: rest => (expect ['r', 'u', 'e'] rest).map ((bool true, ·))
    | 'f' :: rest => (expect ['a', 'l', 's', 'e'] rest).map ((bool false, ·))
    | '-' :: rest => number true rest
    | '"' :: rest => (string ('"' :: rest)).map fun (s, rest) => (str s, rest)
    | '[' :: rest =>
      match depth with
      | 0 => none
      | depth + 1 =>
        match skipBlanks rest with
        | ']' :: rest => some (arr [], rest)
        | rest => (items fuel depth rest).map fun (items, rest) => (arr items, rest)
    | '{' :: rest =>
      match depth with
      | 0 => none
      | depth + 1 =>
        match skipBlanks rest with
        | '}' :: rest => some (obj [], rest)
        | rest => (members fuel depth rest).map fun (members, rest) => (obj members, rest)
    | rest => number false rest

/-- The items of an array from one on, up to its end. -/
def items : (fuel depth : Nat) → List Char → Option (List Json × List Char)
  | 0, _, _ => none
  | fuel + 1, depth, cs => do
    let (v, rest) ← value fuel depth cs
    match skipBlanks rest with
    | ']' :: rest => return ([v], rest)
    | ',' :: rest =>
      let (vs, rest) ← items fuel depth rest
      return (v :: vs, rest)
    | _ => none

/-- The members of an object from one on, up to its end. -/
def members : (fuel depth : Nat) → List Char → Option (List (String × Json) × List Char)
  | 0, _, _ => none
  | fuel + 1, depth, cs => do
    let (name, rest) ← string (skipBlanks cs)
    let rest ← expect [':'] (skipBlanks rest)
    let (v, rest) ← value fuel depth rest
    match skipBlanks rest with
    | '}' :: rest => return ([(name, v)], rest)
    | ',' :: rest =>
      let (vs, rest) ← members fuel depth rest
      return ((name, v) :: vs, rest)
    | _ => none

end

def parse (text : String) : Option Json :=
  let cs := text.toList
  match value (2 * cs.length + 2) maxDepth cs with
  | some (v, rest) => if skipBlanks rest = [] then some v else none
  | none => none

end TradingBot.Json
