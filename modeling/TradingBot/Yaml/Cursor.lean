/-!
# A place in YAML text

**The type** (`Yaml.Cursor`). The text that is left, with the line and the column that it starts in.

**Gaps** (`Yaml.Gap`). What stands between two words of a scalar: blanks on a line, or line
breaks. One line break counts as a blank; of several, the first is dropped.
-/

namespace TradingBot.Yaml

/-- Characters that may stand in YAML text. -/
def isReadable (c : Char) : Bool :=
  let n := c.toNat
  n == 0x9 || n == 0xA || n == 0xD || (0x20 ≤ n && n ≤ 0x7E) || n == 0x85 ||
    (0xA0 ≤ n && n ≤ 0xFFFD) || 0x10000 ≤ n

def isBreakChar (c : Char) : Bool :=
  c == '\n' || c == '\r' || c == '\x85' || c == '\u2028' || c == '\u2029'

def isBlankChar (c : Char) : Bool := c == ' ' || c == '\t'

/-- A mark that some editors put before the text. -/
def byteOrderMark : Char := '\uFEFF'

structure Cursor where
  rest : List Char
  line : Nat := 0
  column : Nat := 0
  /-- How many characters were passed. -/
  index : Nat := 0

namespace Cursor

def peek (c : Cursor) : Option Char := c.rest.head?

def look (c : Cursor) (n : Nat) : Option Char := c.rest[n]?

def isBlank (c : Cursor) : Bool := c.peek.any isBlankChar

def isBreak (c : Cursor) : Bool := c.peek.any isBreakChar

def isEnd (c : Cursor) : Bool := c.rest.isEmpty

def isBreakOrEnd (c : Cursor) : Bool := c.isEnd || c.isBreak

/-- Whether a blank, a line break or the end is so many places on. -/
def isGapAt (c : Cursor) (n : Nat) : Bool :=
  match c.look n with
  | none => true
  | some ch => isBlankChar ch || isBreakChar ch

def isGap (c : Cursor) : Bool := c.isGapAt 0

/-- Passes characters on the same line. -/
def skip (n : Nat) (c : Cursor) : Cursor :=
  { c with rest := c.rest.drop n, column := c.column + n, index := c.index + n }

/-- Passes a line break and gives what it counts as. -/
def readBreak (c : Cursor) : List Char × Cursor :=
  let after (n : Nat) : Cursor :=
    { rest := c.rest.drop n, line := c.line + 1, column := 0, index := c.index + n }
  match c.rest with
  | '\r' :: '\n' :: _ => (['\n'], after 2)
  | ch :: _ =>
    if ch == '\u2028' || ch == '\u2029' then ([ch], after 1)
    else if isBreakChar ch then (['\n'], after 1)
    else ([], c)
  | [] => ([], c)

def skipBreak (c : Cursor) : Cursor := c.readBreak.2

def takeWhile (p : Char → Bool) (c : Cursor) : List Char × Cursor :=
  let cs := c.rest.takeWhile p
  (cs, c.skip cs.length)

def skipWhile (p : Char → Bool) (c : Cursor) : Cursor := (c.takeWhile p).2

def takeLine (c : Cursor) : List Char × Cursor := c.takeWhile (!isBreakChar ·)

/-- Three characters at the beginning of a line that begin or end a document. -/
def startsWithMark (mark : Char) (c : Cursor) : Bool :=
  c.column == 0 && c.look 0 == some mark && c.look 1 == some mark && c.look 2 == some mark &&
    c.isGapAt 3

/-- Whether a document begins or ends here. -/
def isDocumentMark (c : Cursor) : Bool := c.startsWithMark '-' || c.startsWithMark '.'

end Cursor

/-- Blanks and line breaks between two words. -/
structure Gap where
  blanks : List Char := []
  /-- Whether there is a line break, be it an escaped one. -/
  broken : Bool := false
  /-- The first line break. -/
  first : List Char := []
  /-- The line breaks after it. -/
  more : List Char := []

namespace Gap

/-- What the gap counts as. -/
def text (g : Gap) : List Char :=
  if g.broken then
    if g.first == ['\n'] then if g.more.isEmpty then [' '] else g.more else g.first ++ g.more
  else g.blanks

/-- Reads the gap at a place. In block scalars a tab may not stand for indentation. -/
def read (indent : Option Int) : Nat → Gap → Cursor → Option (Gap × Cursor)
  | 0, g, c => some (g, c)
  | fuel + 1, g, c =>
    if c.isBlank then
      if g.broken then
        if c.peek == some '\t' && indent.any fun i => (c.column : Int) < i then none
        else read indent fuel g (c.skip 1)
      else read indent fuel { g with blanks := g.blanks ++ c.rest.take 1 } (c.skip 1)
    else if c.isBreak then
      let (ch, c') := c.readBreak
      if g.broken then read indent fuel { g with more := g.more ++ ch } c'
      else read indent fuel { g with blanks := [], broken := true, first := ch } c'
    else some (g, c)

end Gap

end TradingBot.Yaml
