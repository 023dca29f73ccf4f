import TradingBot.Binary64

/-!
# JSON values and their text

**The type** (`Json`). Whole numbers are kept exactly; all others are binary floating-point numbers.
An object is the list of its members in the order in which they were written, repeated names
included, so that a reader of records can refuse them.

**Writing** (`Json.render`). No blanks. In strings the quote, the backslash and control characters
are escaped; all other characters stand as they are.
-/

namespace TradingBot

inductive Json where
  | null
  | bool (b : Bool)
  | int (n : Int)
  | float (x : Binary64)
  | str (s : String)
  | arr (items : List Json)
  | obj (members : List (String × Json))
deriving Repr

namespace Json

instance : Inhabited Json := ⟨null⟩

def ofOption {α : Type} (f : α → Json) : Option α → Json
  | none => null
  | some a => f a

def ofNat (n : Nat) : Json := int n

/-- The member of an object; of several with one name the last. -/
def member? (name : String) : Json → Option Json
  | obj members => members.reverse.lookup name
  | _ => none

end Json

end TradingBot

namespace TradingBot.Json

/-! ## Writing -/

def hexDigit (n : Nat) : Char := (Nat.toDigits 16 n).headD '0'

/-- A character as it is written inside a string. -/
def escape (c : Char) : List Char :=
  if c = '"' then ['\\', '"']
  else if c = '\\' then ['\\', '\\']
  else if c = '\x08' then ['\\', 'b']
  else if c = '\x0c' then ['\\', 'f']
  else if c = '\n' then ['\\', 'n']
  else if c = '\r' then ['\\', 'r']
  else if c = '\t' then ['\\', 't']
  else if c.toNat < 0x20 then
    ['\\', 'u', '0', '0', hexDigit (c.toNat / 16), hexDigit (c.toNat % 16)]
  else [c]

def renderString (s : String) : String :=
  String.ofList ('"' :: s.toList.flatMap escape ++ ['"'])

/-- A floating-point number keeps a point, so that it reads as one. -/
def renderFloat (x : Binary64) : String :=
  let text := x.text
  if text.toList.contains '.' then text else text ++ ".0"

mutual

def render : Json → String
  | null => "null"
  | bool b => if b then "true" else "false"
  | int n => toString n
  | float x => renderFloat x
  | str s => renderString s
  | arr items => "[" ++ ",".intercalate (renderItems items) ++ "]"
  | obj members => "\x7b" ++ ",".intercalate (renderMembers members) ++ "\x7d"

def renderItems : List Json → List String
  | [] => []
  | v :: vs => render v :: renderItems vs

def renderMembers : List (String × Json) → List String
  | [] => []
  | (name, v) :: vs => (renderString name ++ ":" ++ render v) :: renderMembers vs

end

end TradingBot.Json
