import TradingBot.Dict
import TradingBot.Text

/-!
# The environment

**Files of variables** (`Environment.load`). A file may give variables that the environment lacks:
a name, an equals sign, and a value, in quotes or without. A dollar sign puts the value of another
variable in its place. Such an assignment stands on a line of its own, or on several if they break
within quotes. The first that cannot be read ends the file.
-/

namespace TradingBot.CommandLine

abbrev Environment := Dict String

namespace Environment

/-! ## Values -/

/-- A name behind a dollar sign that is being read. -/
inductive Reference where
  | none
  | bare (name : List Char)
  /-- Within braces. -/
  | braced (name : List Char)

/-- How far a value is read. -/
structure Reading where
  text : List Char := []
  single : Bool := false
  double : Bool := false
  escaped : Bool := false
  /-- Only blanks and a comment may follow. -/
  ended : Bool := false
  reference : Reference := .none

def isNameChar (c : Char) : Bool := c.isAlphanum || c == '_' || c == '.'

def Reading.push (r : Reading) (c : Char) : Reading := { r with text := r.text ++ [c] }

/-- Puts the value of a variable in the place of its name. -/
def Reading.refer (r : Reading) (env : Environment) (name : List Char) : Reading :=
  { r with
    text := r.text ++ ((env.get? (String.ofList name)).getD "").toList
    reference := .none }

/-- An escape stands for itself or a line break. -/
def escape? (c : Char) : Option Char :=
  if c = 'n' then some '\n' else if c ∈ ['\\', '\'', '"', '$', ' '] then some c else none

/-- A character that has no meaning in its quotes. -/
def Reading.plain (r : Reading) (c : Char) : Reading :=
  if c = '$' then { r with reference := .bare [] }
  else if r.double then
    if c = '"' then { r with double := false }
    else if c = '\\' then { r with escaped := true }
    else r.push c
  else if c = '\'' then { r with single := true }
  else if c = '"' then { r with double := true }
  else if c = '\\' then { r with escaped := true }
  else if c = ' ' ∨ c = '\t' then { r with ended := true }
  else r.push c

/-- A character behind a dollar sign. -/
def Reading.inReference (r : Reading) (env : Environment) (c : Char) : Reading :=
  match r.reference with
  | .none => r.plain c
  | .bare name =>
    if c.isAlphanum then { r with reference := .bare (name ++ [c]) }
    else if c = '\x7b' ∧ name = [] then { r with reference := .braced [] }
    else
      let r := r.refer env name
      if c = '$' then { r with reference := .bare [] } else r.push c
  | .braced name =>
    if c = '\x7d' then r.refer env name else { r with reference := .braced (name ++ [c]) }

def readValue (env : Environment) : Reading → List Char → Option String
  | r, [] =>
    if r.single ∨ r.double then none
    else
      match r.reference with
      | .none => some (String.ofList r.text)
      | .bare name => some (String.ofList (r.refer env name).text)
      | .braced _ => none
  | r, c :: cs =>
    if r.ended then
      if c = ' ' ∨ c = '\t' then readValue env r cs
      else if c = '#' then some (String.ofList r.text)
      else none
    else if r.escaped then
      (escape? c).bind fun e => readValue env { r.push e with escaped := false } cs
    else if r.single then
      readValue env (if c = '\'' then { r with single := false } else r.push c) cs
    else readValue env (r.inReference env c) cs

/-! ## Lines -/

def skipBlanks (cs : List Char) : List Char := cs.dropWhile Text.isBlank

def dropBlanksAtEnd (cs : List Char) : List Char := (skipBlanks cs.reverse).reverse

/-- A name at the front, and what stands behind it and its blanks. -/
def readName (cs : List Char) : Option (String × List Char) :=
  if cs.head?.any fun c => c.isAlpha || c == '_' then
    some (String.ofList (cs.takeWhile isNameChar), skipBlanks (cs.dropWhile isNameChar))
  else none

/-- A name and the text of its value; the word `export` may stand before the name. -/
def readAssignment (cs : List Char) : Option (String × List Char) := do
  match ← readName cs with
  | (name, '=' :: rest) => return (name, skipBlanks rest)
  | ("export", rest) =>
    match ← readName rest with
    | (name, '=' :: rest) => return (name, skipBlanks rest)
    | _ => none
  | _ => none

/-- The variable that a line gives, or none if it gives none. -/
def readLine (env : Environment) (line : List Char) : Option (Option (String × String)) :=
  match skipBlanks (dropBlanksAtEnd line) with
  | [] => some none
  | '#' :: _ => some none
  | cs => do
    let (name, rest) ← readAssignment cs
    if rest.head?.all (· == '#') then return some (name, "")
    else return some (name, ← readValue env {} rest)

/-- The environment after a line, or none if the line cannot be read. -/
def afterLine (env : Environment) (line : List Char) : Option Environment :=
  (readLine env line).map fun
    | none => env
    | some (name, value) => if (env.get? name).isSome then env else env.insert name value

/-! ## Where lines end -/

/-- Where a line break would stand. -/
inductive Place where
  /-- Outside of quotes, where the line ends. -/
  | plain
  | blank
  | escape
  | quote (mark : Char)
  | quoteEscape (mark : Char)
deriving DecidableEq

/-- The place behind a character, or none if a comment begins with it. -/
def Place.next (p : Place) (c : Char) : Option Place :=
  match p with
  | .escape => some .plain
  | .quote mark => some (if c = '\\' then .quoteEscape mark else if c = mark then .plain else p)
  | .quoteEscape mark => some (.quote mark)
  | .plain | .blank =>
    if p = .blank ∧ c = '#' then none
    else if c = '\\' then some .escape
    else if c = '"' ∨ c = '\'' then some (.quote c)
    else if p = .plain ∧ Text.isBlank c ∧ c ≠ '\n' ∧ c ≠ '\r' then some .blank
    else some .plain

/-- The text in front of a comment, or the place behind a text without one. -/
def Place.through (p : Place) (before : List Char) : List Char → Place ⊕ List Char
  | [] => .inl p
  | c :: cs =>
    match p.next c with
    | none => .inr before
    | some p => p.through (before ++ [c]) cs

/-- The lines of a text, each with the break that ends it. -/
def splitLines : List Char → List (List Char)
  | [] => []
  | c :: cs =>
    if c = '\n' then [c] :: splitLines cs
    else
      match splitLines cs with
      | [] => [[c]]
      | line :: lines => (c :: line) :: lines

/-- Reads lines; `begun` is the assignment that the lines so far have begun and not ended. -/
def loadLines (env : Environment) (p : Place) (begun : List Char) : List (List Char) → Environment
  | [] => env
  | line :: lines =>
    if (skipBlanks (begun ++ line)).head? = some '#' then loadLines env .plain [] lines
    else
      match p.through [] line with
      | .inl .plain => ((afterLine env (begun ++ line)).map (loadLines · .plain [] lines)).getD env
      | .inl p => loadLines env p (begun ++ line) lines
      | .inr before =>
        ((afterLine env (begun ++ before)).map (loadLines · .plain [] lines)).getD env

/-- The environment with the variables of a file that it lacks. -/
def load (text : String) (env : Environment) : Environment :=
  let cs := text.toList
  loadLines env .plain [] (splitLines (if cs.head? = some '\uFEFF' then cs.tail else cs))

end Environment

end TradingBot.CommandLine
