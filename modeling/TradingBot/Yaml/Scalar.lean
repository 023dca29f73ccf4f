import TradingBot.Yaml.Cursor

/-!
# The texts of scalars

**Plain** (`Yaml.takePlain`). Words up to a colon, a comment, or, between brackets, a comma or a
bracket. Further lines belong to it as long as they are indented.

**Quoted** (`Yaml.takeQuoted`). Single quotes, where a quote is written twice, or double quotes with
escapes.

**Blocks** (`Yaml.takeBlock`). Indented lines behind a bar or an angle, kept line by line or
folded. An indicator says what becomes of the line breaks at the end.
-/

namespace TradingBot.Yaml

/-! ## Plain -/

/-- Characters that end a plain scalar between brackets. -/
def isFlowMark (c : Char) : Bool :=
  c == ',' || c == '[' || c == ']' || c == '\x7b' || c == '\x7d'

/-- A word of a plain scalar; a colon before a bracket is refused between brackets. -/
def takeWord (flow : Bool) : List Char → Option (List Char)
  | [] => some []
  | c :: cs =>
    let next := cs.head?
    let nextIsGap := next.all fun d => isBlankChar d || isBreakChar d
    if isBlankChar c || isBreakChar c then some []
    else if flow && c == ':' && next.any (fun d => isFlowMark d || d == '?') then none
    else if (c == ':' && nextIsGap) || (flow && isFlowMark c) then some []
    else (takeWord flow cs).map (c :: ·)

/-- A scalar's text, whether a line break was passed behind it, and the place after it. -/
structure Taken where
  text : List Char
  broken : Bool := false
  cursor : Cursor

/-- A plain scalar from a word on, `read` and a gap before it. -/
def takePlainFrom (flow : Bool) (indent : Int) :
    Nat → (read : List Char) → Gap → Cursor → Option Taken
  | 0, _, _, _ => none
  | fuel + 1, read, gap, c =>
    if c.isDocumentMark || c.peek == some '#' then
      some { text := read, broken := gap.broken, cursor := c }
    else do
      let word ← takeWord flow c.rest
      let (read, gap) := if word = [] then (read, gap) else (read ++ gap.text ++ word, {})
      let c := c.skip word.length
      if c.isBlank || c.isBreak then
        let (gap, c) ← Gap.read (some indent) c.rest.length gap c
        if !flow && (c.column : Int) < indent then
          return { text := read, broken := gap.broken, cursor := c }
        else takePlainFrom flow indent fuel read gap c
      else return { text := read, broken := gap.broken, cursor := c }

def takePlain (flow : Bool) (indent : Int) (c : Cursor) : Option Taken :=
  takePlainFrom flow indent (c.rest.length + 1) [] {} c

/-! ## Quoted -/

def hexValue? (c : Char) : Option Nat :=
  if '0' ≤ c ∧ c ≤ '9' then some (c.toNat - '0'.toNat)
  else if 'a' ≤ c ∧ c ≤ 'f' then some (c.toNat - 'a'.toNat + 10)
  else if 'A' ≤ c ∧ c ≤ 'F' then some (c.toNat - 'A'.toNat + 10)
  else none

/-- The character of a number of hexadecimal digits. -/
def hexChar? (digits : List Char) (count : Nat) : Option Char := do
  if digits.length < count then none
  else
    let n ← (digits.take count).foldlM (fun n d => (hexValue? d).map (n * 16 + ·)) 0
    if (0xD800 ≤ n ∧ n ≤ 0xDFFF) ∨ 0x10FFFF < n then none else some (Char.ofNat n)

def simpleEscapes : List (Char × Char) :=
  [('0', '\x00'), ('a', '\x07'), ('b', '\x08'), ('t', '\t'), ('\t', '\t'), ('n', '\n'),
    ('v', '\x0b'), ('f', '\x0c'), ('r', '\r'), ('e', '\x1b'), (' ', ' '), ('"', '"'), ('/', '/'),
    ('\\', '\\'), ('N', '\x85'), ('_', '\xa0'), ('L', '\u2028'), ('P', '\u2029')]

/-- Escapes with hexadecimal digits, and how many they have. -/
def hexEscapes : List (Char × Nat) := [('x', 2), ('u', 4), ('U', 8)]

/-- The character of an escape, and the characters that it takes behind the backslash. -/
def escape? : List Char → Option (Char × Nat)
  | [] => none
  | c :: cs =>
    match simpleEscapes.lookup c, hexEscapes.lookup c with
    | some e, _ => some (e, 1)
    | none, some count => (hexChar? cs count).map (·, count + 1)
    | none, none => none

/-- A word of a quoted scalar, up to a gap or the closing quote. -/
def takeQuotedWord (quote : Char) : Nat → (read : List Char) → Cursor → Option Taken
  | 0, _, _ => none
  | fuel + 1, read, c =>
    match c.rest with
    | [] => some { text := read, cursor := c }
    | ch :: cs =>
      if isBlankChar ch || isBreakChar ch then some { text := read, cursor := c }
      else if ch == quote then
        if quote == '\'' && cs.head? == some '\'' then
          takeQuotedWord quote fuel (read ++ ['\'']) (c.skip 2)
        else some { text := read, cursor := c }
      else if quote == '"' && ch == '\\' then
        if cs.head?.any isBreakChar then
          some { text := read, broken := true, cursor := (c.skip 1).skipBreak }
        else do
          let (e, count) ← escape? cs
          takeQuotedWord quote fuel (read ++ [e]) (c.skip (count + 1))
      else takeQuotedWord quote fuel (read ++ [ch]) (c.skip 1)

/-- A quoted scalar behind its opening quote, `read` before it. -/
def takeQuotedFrom (quote : Char) : Nat → (read : List Char) → Cursor → Option Taken
  | 0, _, _ => none
  | fuel + 1, read, c =>
    if c.isDocumentMark || c.isEnd then none
    else do
      let word ← takeQuotedWord quote (c.rest.length + 1) [] c
      let read := read ++ word.text
      if word.cursor.peek == some quote && !word.broken then
        return { text := read, cursor := word.cursor.skip 1 }
      else if word.cursor.peek == some quote then
        return { text := read, cursor := word.cursor.skip 1 }
      else
        let (gap, c) ← Gap.read none word.cursor.rest.length { broken := word.broken } word.cursor
        takeQuotedFrom quote fuel (read ++ gap.text) c

/-- A quoted scalar, its opening quote included. -/
def takeQuoted (quote : Char) (c : Cursor) : Option Taken :=
  takeQuotedFrom quote (c.rest.length + 1) [] (c.skip 1)

/-! ## Blocks -/

/-- What becomes of the line breaks at a block's end. -/
inductive Chomping where
  /-- All are dropped. -/
  | strip
  /-- The first is kept. -/
  | clip
  /-- All are kept. -/
  | keep
deriving DecidableEq

/-- What stands behind a block's bar or angle. -/
structure BlockHeader where
  chomping : Chomping := .clip
  /-- How much further than its surroundings the block is indented, if it is said. -/
  increment : Option Nat := none

def chomping? : Option Char → Option Chomping
  | some '+' => some .keep
  | some '-' => some .strip
  | _ => none

/-- A digit from one to nine; zero is refused. -/
def increment? (c : Cursor) : Option (Option Nat × Cursor) :=
  match c.peek with
  | some ch =>
    if ch == '0' then none
    else if ch.isDigit then some (some (ch.toNat - '0'.toNat), c.skip 1)
    else some (none, c)
  | none => some (none, c)

/-- The header, up to the end of its line. -/
def takeHeader (c : Cursor) : Option (BlockHeader × Cursor) := do
  let (header, c) : BlockHeader × Cursor ←
    match chomping? c.peek with
    | some chomping => do
      let (increment, c) ← increment? (c.skip 1)
      pure ({ chomping, increment }, c)
    | none => do
      let (increment, c) ← increment? c
      match increment, chomping? c.peek with
      | some _, some chomping => pure ({ chomping, increment }, c.skip 1)
      | _, _ => pure ({ increment }, c)
  let c := c.skipWhile isBlankChar
  let c := if c.peek == some '#' then c.takeLine.2 else c
  if c.isBreakOrEnd then return (header, c.skipBreak) else none

/-- Empty lines of a block, and the indentation that is found if it is not known yet. -/
structure Lines where
  breaks : List Char := []
  deepest : Nat := 0
  cursor : Cursor

/-- Passes the indentation of lines and the lines that are empty. -/
def takeEmptyLines (indent : Option Nat) : Nat → Lines → Option Lines
  | 0, _ => none
  | fuel + 1, l =>
    let inside (column : Nat) : Bool := indent.all fun i => column < i
    let spaces := (l.cursor.rest.takeWhile (· == ' ')).length
    let count := match indent with
      | some i => min spaces (i - l.cursor.column)
      | none => spaces
    let c := l.cursor.skip count
    let deepest := max l.deepest c.column
    if inside c.column && c.peek == some '\t' then none
    else if c.isBreak then
      let (ch, c) := c.readBreak
      takeEmptyLines indent fuel { breaks := l.breaks ++ ch, deepest, cursor := c }
    else some { l with deepest, cursor := c }

/-- Passes empty lines, and settles the indentation: at least one, and deeper than the
surroundings. -/
def takeIndentation (parent : Int) (indent : Option Nat) (c : Cursor) :
    Option (Nat × List Char × Cursor) := do
  let l ← takeEmptyLines indent (c.rest.length + 1) { cursor := c }
  let found := match indent with
    | some i => i
    | none => max (max l.deepest (parent + 1).toNat) 1
  return (found, l.breaks, l.cursor)

/-- A block's lines so far: their text, the break of the last line, the empty lines after it, and
whether the last line began with a blank. -/
structure BlockText where
  text : List Char := []
  lastBreak : List Char := []
  empty : List Char := []
  startsBlank : Bool := false

def takeLines (literal : Bool) (parent : Int) (indent : Nat) :
    Nat → BlockText → Cursor → Option (BlockText × Cursor)
  | 0, b, c => some (b, c)
  | fuel + 1, b, c =>
    if c.column == indent && !c.isEnd then do
      let startsBlank := c.isBlank
      let folds := !literal && b.lastBreak == ['\n'] && !b.startsBlank && !startsBlank
      let joint := if folds then if b.empty.isEmpty then [' '] else [] else b.lastBreak
      let (line, c) := c.takeLine
      let (lastBreak, c) := c.readBreak
      let (_, empty, c) ← takeIndentation parent (some indent) c
      takeLines literal parent indent fuel
        { text := b.text ++ joint ++ b.empty ++ line, lastBreak, empty, startsBlank } c
    else some (b, c)

/-- A block scalar, its bar or angle included; `parent` is the indentation around it. -/
def takeBlock (parent : Int) (c : Cursor) : Option Taken := do
  let literal := c.peek == some '|'
  let (header, c) ← takeHeader (c.skip 1)
  let known := header.increment.map fun n => (max parent 0).toNat + n
  let (indent, empty, c) ← takeIndentation parent known c
  let (b, c) ← takeLines literal parent indent (c.rest.length + 1) { empty } c
  let tail :=
    match header.chomping with
    | .strip => []
    | .clip => b.lastBreak
    | .keep => b.lastBreak ++ b.empty
  return { text := b.text ++ tail, cursor := c }

end TradingBot.Yaml
