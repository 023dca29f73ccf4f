import TradingBot.Decimal.Text
import TradingBot.Dict

/-!
# Dialects of structured data

**The type** (`Dialect`). What a data format says about one of its values when a reader expects a
map, a list, a text, a flag, a number: the answer, or that the value is none. Records, lists and
maps are read through it, so that a type has one reader for all formats.

**Records** (`record`). A record is read as the values of its declared fields. A field may have
further names. Names that are not declared are ignored; a field that is written twice, under
whichever names, is refused. Some formats also write a record as the list of its fields.
-/

namespace TradingBot

/-- How a format answers a reader's expectations of a value. -/
structure Dialect (ν : Type) where
  /-- The entries of a map, as written. -/
  entries : ν → Option (List (String × ν))
  /-- The values of a record that is written as a list. -/
  positional : ν → Option (List ν)
  items : ν → Option (List ν)
  text : ν → Option String
  flag : ν → Option Bool
  /-- A whole number from zero to a bound. -/
  natural : (bound : Nat) → ν → Option Nat
  decimal : ν → Option Decimal
  /-- One name of a fixed choice of names. -/
  choice : ν → Option String
  /-- Whether the value stands for the absence of one. -/
  isAbsent : ν → Bool

/-- The name of a field and the other names that it may be written with. -/
structure FieldName where
  name : String
  aliases : List String := []
deriving DecidableEq, Repr

/-- The values found at declared fields. -/
abbrev Fields (ν : Type) := List (String × ν)

namespace FieldName

/-- Whether a written name means this field. -/
def Matches (f : FieldName) (written : String) : Prop := written = f.name ∨ written ∈ f.aliases

instance (f : FieldName) (written : String) : Decidable (f.Matches written) :=
  inferInstanceAs (Decidable (_ ∨ _))

/-- The declared field that a written name means. -/
def resolve (fields : List FieldName) (written : String) : Option String :=
  (fields.find? fun f => f.Matches written).map (·.name)

end FieldName

namespace Fields

variable {ν α : Type}

/-- The values at the declared fields, unless one is written twice. -/
def collect (fields : List FieldName) : List (String × ν) → Option (Fields ν)
  | [] => some []
  | (written, v) :: rest => do
    let found ← collect fields rest
    match FieldName.resolve fields written with
    | none => return found
    | some name => if (found.lookup name).isSome then none else return (name, v) :: found

/-- Values in the order of the declared fields; the last fields may be missing. -/
def ofList (fields : List FieldName) (values : List ν) : Option (Fields ν) :=
  if values.length ≤ fields.length then some ((fields.map (·.name)).zip values) else none

def required (r : Fields ν) (name : String) (read : ν → Option α) : Option α :=
  (r.lookup name).bind read

def optional (r : Fields ν) (name : String) (default : α) (read : ν → Option α) : Option α :=
  match r.lookup name with
  | none => some default
  | some v => read v

end Fields

namespace Dialect

variable {ν α : Type}

def record (d : Dialect ν) (fields : List FieldName) (v : ν) : Option (Fields ν) :=
  match d.entries v with
  | some entries => Fields.collect fields entries
  | none => (d.positional v).bind (Fields.ofList fields)

def list (d : Dialect ν) (read : ν → Option α) (v : ν) : Option (List α) :=
  (d.items v).bind (·.mapM read)

/-- A map; of several entries with one key the last one counts. -/
def dict (d : Dialect ν) (read : ν → Option α) (v : ν) : Option (Dict α) :=
  (d.entries v).bind fun entries =>
    (entries.mapM fun e => (read e.2).map fun v => (e.1, v)).map Dict.ofList

def uint16 (d : Dialect ν) (v : ν) : Option UInt16 :=
  (d.natural (UInt16.size - 1) v).map UInt16.ofNat

def uint64 (d : Dialect ν) (v : ν) : Option UInt64 :=
  (d.natural (UInt64.size - 1) v).map UInt64.ofNat

/-- A value that may be absent. -/
def nullable (d : Dialect ν) (read : ν → Option α) (v : ν) : Option (Option α) :=
  if d.isAbsent v then some none else (read v).map some

end Dialect

end TradingBot
