import TradingBot.Yaml.Scalar

/-!
# YAML tokens

**The type** (`Yaml.Token`). The words, brackets and marks of YAML text. Indentation shows as
tokens of its own: a deeper line begins a list or a map, a line further to the left ends those
that are deeper.

**Reading** (`Yaml.Token.ofText`). A key is known as one only by the colon behind it. So the place
of each token that may be a key is kept, one for each level of brackets, until the line ends.
-/

namespace TradingBot.Yaml

inductive Token where
  | version (major minor : Nat)
  | tagShorthand (handle : String)
  | documentStart
  | documentEnd
  | sequenceStart
  | mappingStart
  /-- Ends a list or a map that its indentation shows. -/
  | blockEnd
  | openBracket
  | closeBracket
  | openBrace
  | closeBrace
  | entry
  | comma
  | key
  | value
  | anchor (name : String)
  | alias (name : String)
  | tag (handle suffix : String)
  | scalar (text : String) (plain : Bool)
deriving DecidableEq, Repr

/-- A token that may turn out to be a key. -/
structure KeyPlace where
  /-- Whether it stands where only a key can stand. -/
  required : Bool
  /-- How many tokens come before it. -/
  position : Nat
  line : Nat
  column : Nat
  index : Nat

structure Lexer where
  cursor : Cursor
  tokens : Array Token := #[]
  indent : Int := -1
  /-- The indentations around the present one. -/
  outer : List Int := []
  /-- Whether a key may begin here. -/
  keyAllowed : Bool := true
  /-- The possible key outside of all open brackets. -/
  blockKey : Option KeyPlace := none
  /-- The possible keys within open brackets, the innermost first. -/
  flowKeys : List (Option KeyPlace) := []

namespace Lexer

def inFlow (l : Lexer) : Bool := !l.flowKeys.isEmpty

def emit (t : Token) (l : Lexer) : Lexer := { l with tokens := l.tokens.push t }

/-- Inserts a token before those from a position on. -/
def insertAt (position : Nat) (t : Token) (l : Lexer) : Lexer :=
  { l with
    tokens := (l.tokens.extract 0 position).push t ++ l.tokens.extract position l.tokens.size }

/-! ## Possible keys -/

/-- The possible key within the innermost brackets. -/
def keyPlace (l : Lexer) : Option KeyPlace :=
  match l.flowKeys with
  | [] => l.blockKey
  | k :: _ => k

def setKeyPlace (k : Option KeyPlace) (l : Lexer) : Lexer :=
  match l.flowKeys with
  | [] => { l with blockKey := k }
  | _ :: ks => { l with flowKeys := k :: ks }

/-- A key does not reach beyond its line nor beyond so many characters. -/
def longestKey : Nat := 1024

def isStale (c : Cursor) (k : KeyPlace) : Bool :=
  k.line < c.line || k.index + longestKey < c.index

/-- Forgets the possible keys that have become too long; a required one is refused. -/
def dropStale (l : Lexer) : Option Lexer :=
  let fresh (k : Option KeyPlace) : Option KeyPlace := k.filter (!isStale l.cursor ·)
  let lost (k : Option KeyPlace) : Bool := k.any fun k => k.required && isStale l.cursor k
  if (l.blockKey :: l.flowKeys).any lost then none
  else some { l with blockKey := fresh l.blockKey, flowKeys := l.flowKeys.map fresh }

/-- Gives the possible key up; a required one is refused. -/
def dropKey (l : Lexer) : Option Lexer :=
  if l.keyPlace.any (·.required) then none else some (l.setKeyPlace none)

/-- Notes that the next token may be a key. -/
def noteKey (l : Lexer) : Option Lexer :=
  if l.keyAllowed then
    l.dropKey.map fun l =>
      l.setKeyPlace <| some
        { required := !l.inFlow && l.indent == l.cursor.column, position := l.tokens.size
          line := l.cursor.line, column := l.cursor.column, index := l.cursor.index }
  else some l

/-! ## Indentation -/

/-- Begins a list or a map if the column lies deeper; its token comes at a position. -/
def indentTo (column position : Nat) (t : Token) (l : Lexer) : Lexer :=
  if !l.inFlow && l.indent < column then
    { l.insertAt position t with indent := column, outer := l.indent :: l.outer }
  else l

/-- Ends the lists and maps that lie deeper than the column. -/
def endDeeper (column : Int) : List Int → Lexer → Lexer
  | [], l => l
  | i :: is, l =>
    if column < l.indent then endDeeper column is { l.emit .blockEnd with indent := i, outer := is }
    else l

def dedentTo (column : Int) (l : Lexer) : Lexer :=
  if l.inFlow then l else endDeeper column l.outer l

/-! ## Blanks and comments -/

/-- Passes blanks, comments and line breaks. -/
def skipToToken : Nat → Lexer → Lexer
  | 0, l => l
  | fuel + 1, l =>
    let c := l.cursor
    let c := if c.column == 0 && c.peek == some byteOrderMark then c.skip 1 else c
    let tabs := l.inFlow || !l.keyAllowed
    let c := c.skipWhile fun ch => ch == ' ' || (tabs && ch == '\t')
    let c := if c.peek == some '#' then c.takeLine.2 else c
    if c.isBreak then
      skipToToken fuel
        { l with cursor := c.skipBreak, keyAllowed := l.keyAllowed || !l.inFlow }
    else { l with cursor := c }

/-! ## Directives, anchors and tags -/

def isNameChar (c : Char) : Bool := c.isAlphanum || c == '_' || c == '-'

def digitsValue (ds : List Char) : Nat := Nat.ofDigitChars 10 ds 0

/-- A version of two numbers with a point between. -/
def takeVersion (c : Cursor) : Option (Token × Cursor) :=
  let (major, c) := c.takeWhile Char.isDigit
  let (minor, c') := (c.skip 1).takeWhile Char.isDigit
  if major = [] ∨ minor = [] ∨ c.peek ≠ some '.' ∨ 9 < major.length ∨ 9 < minor.length then none
  else some (.version (digitsValue major) (digitsValue minor), c')

def isTagChar (c : Char) : Bool :=
  isNameChar c || c ∈ [';', '/', '?', ':', '@', '&', '=', '+', '$', '.', '%', '!', '~', '*', '\'',
    '(', ')']

/-- Characters of a tag that is written in angles or behind a directive. -/
def isAddressChar (c : Char) : Bool := isTagChar c || c == ',' || c == '[' || c == ']'

/-- A shorthand for tags: an exclamation mark, or two around a name. -/
def takeHandle (c : Cursor) : Option (String × Cursor) :=
  if c.peek ≠ some '!' then none
  else
    let (name, c') := (c.skip 1).takeWhile isNameChar
    if c'.peek == some '!' then some (String.ofList ('!' :: name ++ ['!']), c'.skip 1)
    else if name = [] then some ("!", c')
    else none

/-- A directive, up to the end of its line. -/
def takeDirective (c : Cursor) : Option (Token × Cursor) := do
  let (name, c) := (c.skip 1).takeWhile isNameChar
  let c' := c.skipWhile isBlankChar
  let (token, c) ←
    match String.ofList name with
    | "YAML" => takeVersion c'
    | "TAG" => do
      let (handle, c) ← takeHandle c'
      if !c.isBlank then none
      else
        let (address, c) := (c.skipWhile isBlankChar).takeWhile isAddressChar
        if address = [] ∨ !c.isGap then none else some (Token.tagShorthand handle, c)
    | _ => none
  let c := c.skipWhile isBlankChar
  let c := if c.peek == some '#' then c.takeLine.2 else c
  if c.isBreakOrEnd then return (token, c.skipBreak) else none

/-- The name of an anchor behind its mark. -/
def takeName (c : Cursor) : Option (String × Cursor) :=
  let (name, c) := (c.skip 1).takeWhile isNameChar
  let ends := c.isGap || c.peek.any fun ch =>
    ch ∈ ['?', ':', ',', ']', '\x7d', '%', '@', '\x60']
  if name = [] ∨ !ends then none else some (String.ofList name, c)

/-- A tag: in angles, with a shorthand, or local. -/
def takeTag (inFlow : Bool) (c : Cursor) : Option (Token × Cursor) := do
  let (token, c) ←
    if c.look 1 == some '<' then
      let (address, c) := (c.skip 2).takeWhile isAddressChar
      if address = [] ∨ c.peek ≠ some '>' then none
      else some (Token.tag "" (String.ofList address), c.skip 1)
    else
      let (name, c') := (c.skip 1).takeWhile isNameChar
      if c'.peek == some '!' then
        let (suffix, c) := (c'.skip 1).takeWhile isTagChar
        if suffix = [] then none
        else some (.tag (String.ofList ('!' :: name ++ ['!'])) (String.ofList suffix), c)
      else
        let (suffix, c) := (c.skip 1).takeWhile isTagChar
        some (.tag "!" (String.ofList suffix), c)
  if c.isGap || (inFlow && c.peek == some ',') then return (token, c) else none

/-! ## Single tokens -/

/-- A token of some characters, after which a key may or may not begin. -/
def pass (count : Nat) (keyAllowed : Bool) (t : Token) (l : Lexer) : Lexer :=
  { l.emit t with cursor := l.cursor.skip count, keyAllowed }

/-- A directive or a mark of a document's begin or end: all indentation ends. -/
def atMargin (l : Lexer) : Option Lexer :=
  (l.dedentTo (-1)).dropKey.map fun l => { l with keyAllowed := false }

def readDirective (l : Lexer) : Option Lexer := do
  let l ← l.atMargin
  let (t, cursor) ← takeDirective l.cursor
  return { l.emit t with cursor }

def readMark (t : Token) (l : Lexer) : Option Lexer := l.atMargin.map (pass 3 false t)

def openFlow (t : Token) (l : Lexer) : Option Lexer := do
  let l ← l.noteKey
  return { l.pass 1 true t with flowKeys := none :: l.flowKeys }

def closeFlow (t : Token) (l : Lexer) : Option Lexer := do
  let l ← l.dropKey
  return { l.pass 1 false t with flowKeys := l.flowKeys.tail }

def readComma (l : Lexer) : Option Lexer := l.dropKey.map (pass 1 true .comma)

def readEntry (l : Lexer) : Option Lexer := do
  if !l.inFlow && !l.keyAllowed then none
  else
    let l ← (l.indentTo l.cursor.column l.tokens.size .sequenceStart).dropKey
    return l.pass 1 true .entry

def readKey (l : Lexer) : Option Lexer := do
  if !l.inFlow && !l.keyAllowed then none
  else
    let l ← (l.indentTo l.cursor.column l.tokens.size .mappingStart).dropKey
    return l.pass 1 (!l.inFlow) .key

/-- A colon: the token noted as a possible key is one. -/
def readValue (l : Lexer) : Option Lexer :=
  match l.keyPlace with
  | some k =>
    let l := (l.insertAt k.position .key).indentTo k.column k.position .mappingStart
    some ((l.setKeyPlace none).pass 1 false .value)
  | none =>
    if l.inFlow then some (l.pass 1 false .value)
    else if l.keyAllowed then
      some ((l.indentTo l.cursor.column l.tokens.size .mappingStart).pass 1 true .value)
    else none

/-- A token that may be a key. -/
def readWord (take : Cursor → Option (Token × Cursor)) (l : Lexer) : Option Lexer := do
  let l ← l.noteKey
  let (t, cursor) ← take l.cursor
  return { l.emit t with cursor, keyAllowed := false }

def readQuoted (quote : Char) (l : Lexer) : Option Lexer :=
  l.readWord fun c =>
    (takeQuoted quote c).map fun t => (.scalar (String.ofList t.text) false, t.cursor)

def readBlock (l : Lexer) : Option Lexer := do
  let l ← l.dropKey
  let t ← takeBlock l.indent l.cursor
  let token := .scalar (String.ofList t.text) false
  return { l.emit token with cursor := t.cursor, keyAllowed := true }

/-- A plain scalar; behind a line break a key may begin. -/
def readPlain (l : Lexer) : Option Lexer := do
  let l ← l.noteKey
  let t ← takePlain l.inFlow (l.indent + 1) l.cursor
  let token := .scalar (String.ofList t.text) true
  return { l.emit token with cursor := t.cursor, keyAllowed := t.broken }

/-- Characters that begin no plain scalar. -/
def indicators : List Char :=
  ['-', '?', ':', ',', '[', ']', '\x7b', '\x7d', '#', '&', '*', '!', '|', '>', '\'', '"', '%', '@',
    '\x60']

def startsPlain (l : Lexer) (ch : Char) : Bool :=
  let next := l.cursor.look 1
  (!l.cursor.isGap && !(ch ∈ indicators)) || (ch == '-' && !next.any isBlankChar) ||
    (!l.inFlow && (ch == '?' || ch == ':') && !l.cursor.isGapAt 1)

def readToken (ch : Char) (l : Lexer) : Option Lexer :=
  let c := l.cursor
  let alone := l.inFlow || c.isGapAt 1
  if c.column == 0 && ch == '%' then l.readDirective
  else if c.startsWithMark '-' then l.readMark .documentStart
  else if c.startsWithMark '.' then l.readMark .documentEnd
  else if ch == '[' then l.openFlow .openBracket
  else if ch == '\x7b' then l.openFlow .openBrace
  else if ch == ']' then l.closeFlow .closeBracket
  else if ch == '\x7d' then l.closeFlow .closeBrace
  else if ch == ',' then l.readComma
  else if ch == '-' && c.isGapAt 1 then l.readEntry
  else if ch == '?' && alone then l.readKey
  else if ch == ':' && alone then l.readValue
  else if ch == '*' then l.readWord fun c => (takeName c).map fun (n, c) => (.alias n, c)
  else if ch == '&' then l.readWord fun c => (takeName c).map fun (n, c) => (.anchor n, c)
  else if ch == '!' then l.readWord (takeTag l.inFlow)
  else if (ch == '|' || ch == '>') && !l.inFlow then l.readBlock
  else if ch == '\'' || ch == '"' then l.readQuoted ch
  else if l.startsPlain ch then l.readPlain
  else none

def readAll : Nat → Lexer → Option Lexer
  | 0, _ => none
  | fuel + 1, l => do
    let l ← (l.skipToToken (l.cursor.rest.length + 1)).dropStale
    let l := l.dedentTo l.cursor.column
    match l.cursor.peek with
    | none => (l.dedentTo (-1)).dropKey
    | some ch => readAll fuel (← l.readToken ch)

end Lexer

def Token.ofText (text : String) : Option (List Token) :=
  let cs := text.toList
  let cs := if cs.head? == some byteOrderMark then cs.tail else cs
  if cs.all isReadable then
    (Lexer.readAll (cs.length + 1) { cursor := { rest := cs } }).map (·.tokens.toList)
  else none

end TradingBot.Yaml
