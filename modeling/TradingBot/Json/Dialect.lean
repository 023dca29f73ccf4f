import TradingBot.Dialect
import TradingBot.Json.Printer

/-!
# JSON as a dialect

**The dialect** (`Json.dialect`). Nothing is converted: text is a string, a flag a boolean, a whole
number one without point or exponent. A decimal is a string or a number; a floating-point number is
taken at its shortest text. A record may also be an array of its fields in order. One name of a
choice is a string, or an object with that name alone and null behind it.

**Writing.** Decimals are written as strings.
-/

namespace TradingBot

def Decimal.ofInt? (n : Int) : Option Decimal := Decimal.make? n 0

/-- The decimal of a floating-point number's shortest text. -/
def Decimal.ofBinary64? (x : Binary64) : Option Decimal := Decimal.parse x.text

namespace Json

def entries? : Json → Option (List (String × Json))
  | obj members => some members
  | _ => none

def items? : Json → Option (List Json)
  | arr items => some items
  | _ => none

def text? : Json → Option String
  | str s => some s
  | _ => none

def flag? : Json → Option Bool
  | bool b => some b
  | _ => none

def natural? (bound : Nat) : Json → Option Nat
  | int n => if 0 ≤ n ∧ n ≤ bound then some n.toNat else none
  | _ => none

def decimal? : Json → Option Decimal
  | str s => Decimal.parse s
  | int n => Decimal.ofInt? n
  | float x => Decimal.ofBinary64? x
  | _ => none

def choice? : Json → Option String
  | str s => some s
  | obj [(name, null)] => some name
  | _ => none

def isNull : Json → Bool
  | null => true
  | _ => false

def dialect : Dialect Json where
  entries := entries?
  positional := items?
  items := items?
  text := text?
  flag := flag?
  natural := natural?
  decimal := decimal?
  choice := choice?
  isAbsent := isNull

/-! ## Writing -/

def ofDecimal (d : Decimal) : Json := str d.render

def ofList {α : Type} (f : α → Json) (l : List α) : Json := arr (l.map f)

def ofDict {α : Type} (f : α → Json) (d : Dict α) : Json :=
  obj (d.entries.map fun (key, v) => (key, f v))

end Json

end TradingBot
