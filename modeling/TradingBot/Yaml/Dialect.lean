import TradingBot.Json.Dialect
import TradingBot.Yaml.Node

/-!
# YAML as a dialect

**The dialect** (`Yaml.dialect`). A scalar is taken as text where text is expected, however it is
written. A flag or a whole number must be plain. A decimal is text in quotes, or a plain whole
number, a plain floating-point number at its shortest text, or any other plain text that stands
for a decimal.

**Absence.** An empty plain scalar stands for an empty map or list. It, a tilde and `null` stand
for an absent value.
-/

namespace TradingBot.Yaml

/-! ## Plain scalars -/

def isNullText (s : String) : Bool := s == "~" || s == "null" || s == "Null" || s == "NULL"

def flagOfText? (s : String) : Option Bool :=
  if s ∈ ["true", "True", "TRUE"] then some true
  else if s ∈ ["false", "False", "FALSE"] then some false
  else none

def digitValue? (c : Char) : Option Nat := hexValue? c

/-- The number of digits in a base, at least one. -/
def digitsOfText? (base : Nat) (cs : List Char) : Option Nat :=
  let append (n : Nat) (c : Char) : Option Nat :=
    (digitValue? c).bind fun d => if d < base then some (n * base + d) else none
  if cs = [] then none else cs.foldlM append 0

/-- Digits with a zero in front are text and no number. -/
def hasLeadingZero (cs : List Char) : Bool :=
  match cs with
  | '0' :: d :: ds => (d :: ds).all Char.isDigit
  | _ => false

/-- A whole number without its sign: in a base that its head names, or decimal. -/
def magnitudeOfText? (cs : List Char) : Option Nat :=
  match cs with
  | '0' :: 'x' :: ds => digitsOfText? 16 ds
  | '0' :: 'o' :: ds => digitsOfText? 8 ds
  | '0' :: 'b' :: ds => digitsOfText? 2 ds
  | cs => if hasLeadingZero cs then none else digitsOfText? 10 cs

def naturalOfText? (s : String) : Option Nat :=
  match s.toList with
  | '+' :: cs => magnitudeOfText? cs
  | cs => magnitudeOfText? cs

def integerOfText? (s : String) : Option Int :=
  match s.toList with
  | '-' :: cs => (magnitudeOfText? cs).map fun n => -(n : Int)
  | _ => (naturalOfText? s).map fun n => (n : Int)

/-- Whole numbers that a 64-bit word holds, with a sign or without. -/
def IsWord (n : Int) : Prop := -(pow2 63 : Int) ≤ n ∧ n < pow2 64

instance (n : Int) : Decidable (IsWord n) := inferInstanceAs (Decidable (_ ∧ _))

/-- An exponent behind its letter. -/
def exponentOfText? (cs : List Char) : Option Int :=
  match cs with
  | '-' :: ds => (digitsOfText? 10 ds).map fun n => -(n : Int)
  | '+' :: ds => (digitsOfText? 10 ds).map fun n => (n : Int)
  | ds => (digitsOfText? 10 ds).map fun n => (n : Int)

/-- A floating-point number without its sign: digits with a point among them, and an exponent. -/
def floatMagnitude? (negative : Bool) (cs : List Char) : Option Binary64 := do
  let isMark (c : Char) := c == 'e' || c == 'E'
  let digits := cs.takeWhile (!isMark ·)
  let whole := digits.takeWhile (· != '.')
  let fraction := (digits.dropWhile (· != '.')).drop 1
  let exponent ←
    match cs.dropWhile (!isMark ·) with
    | [] => some 0
    | _ :: ds => exponentOfText? ds
  let coeff ← digitsOfText? 10 (whole ++ fraction)
  Binary64.ofDecimal? negative coeff (exponent - fraction.length)

def floatOfText? (s : String) : Option Binary64 :=
  match s.toList with
  | '-' :: cs => floatMagnitude? true cs
  | '+' :: cs => floatMagnitude? false cs
  | cs => floatMagnitude? false cs

/-- Texts that stand for no finite number. -/
def isInfinite (s : String) : Bool :=
  s ∈ [".inf", ".Inf", ".INF", "+.inf", "+.Inf", "+.INF", "-.inf", "-.Inf", "-.INF", ".nan", ".NaN",
    ".NAN"]

def unsigned (s : String) : List Char :=
  match s.toList with
  | '-' :: cs => cs
  | '+' :: cs => cs
  | cs => cs

def plainDecimal? (s : String) : Option Decimal :=
  if s = "" ∨ isNullText s ∨ (flagOfText? s).isSome ∨ isInfinite s then none
  else
    match integerOfText? s with
    | some n => if IsWord n then Decimal.ofInt? n else none
    | none =>
      match if hasLeadingZero (unsigned s) then none else floatOfText? s with
      | some x => Decimal.ofBinary64? x
      | none => Decimal.parse s

/-! ## The dialect -/

def entryOf? : Node × Node → Option (String × Node)
  | (.scalar text _ _, v) => some (text, v)
  | _ => none

def entries? : Node → Option (List (String × Node))
  | .map entries => entries.mapM entryOf?
  | .scalar "" true _ => some []
  | _ => none

def items? : Node → Option (List Node)
  | .seq items => some items
  | .scalar "" true _ => some []
  | _ => none

def text? : Node → Option String
  | .scalar text _ _ => some text
  | _ => none

def flag? : Node → Option Bool
  | .scalar text true _ => flagOfText? text
  | _ => none

def natural? (bound : Nat) : Node → Option Nat
  | .scalar text true _ => (naturalOfText? text).filter (· ≤ bound)
  | _ => none

def decimal? : Node → Option Decimal
  | .scalar text true none => plainDecimal? text
  | .scalar text true (some .int) =>
    ((integerOfText? text).filter fun n => IsWord n).bind Decimal.ofInt?
  | .scalar text true (some .float) =>
    if isInfinite text then none else (floatOfText? text).bind Decimal.ofBinary64?
  | .scalar text _ (some .text) => Decimal.parse text
  | .scalar text false none => Decimal.parse text
  | _ => none

def isAbsent : Node → Bool
  | .scalar text true none => text == "" || isNullText text
  | .scalar text true (some .null) => isNullText text
  | _ => false

def dialect : Dialect Node where
  entries := entries?
  positional _ := none
  items := items?
  text := text?
  flag := flag?
  natural := natural?
  decimal := decimal?
  choice := text?
  isAbsent := isAbsent

end TradingBot.Yaml
