/-!
# Text

**White space** (`Text.isBlank`). The characters with the Unicode property `White_Space`. Trimming
(`Text.trim`) removes them at both ends, and a text is *blank* if nothing remains.

**Fragments** (`Text.occursIn`). Whether a fragment stands somewhere in a text, character by
character. The empty fragment stands in every text. `Text.behind?` is what stands behind a given
head of a text.

**Lenient decoding** (`Text.decodeLossy`). Well-formed byte sequences become their characters. Each
longest run of bytes that starts a well-formed sequence but does not complete it, and each byte that
can start none, becomes one replacement character.
-/

namespace TradingBot.Text

/-! ## White space -/

/-- The characters with the Unicode property `White_Space`. -/
def isBlank (c : Char) : Bool :=
  let n := c.toNat
  (0x9 ≤ n && n ≤ 0xD) || n == 0x20 || n == 0x85 || n == 0xA0 || n == 0x1680 ||
    (0x2000 ≤ n && n ≤ 0x200A) || n == 0x2028 || n == 0x2029 || n == 0x202F || n == 0x205F ||
    n == 0x3000

def trimList (cs : List Char) : List Char :=
  ((cs.dropWhile isBlank).reverse.dropWhile isBlank).reverse

def trim (s : String) : String := String.ofList (trimList s.toList)

def Blank (s : String) : Prop := ∀ c ∈ s.toList, isBlank c

instance (s : String) : Decidable (Blank s) := List.decidableBAll _ s.toList

/-! ## Fragments -/

def occursInList (part : List Char) : List Char → Bool
  | [] => part.isEmpty
  | c :: cs => part.isPrefixOf (c :: cs) || occursInList part cs

def occursIn (part text : String) : Bool := occursInList part.toList text.toList

theorem occursInList_iff {part cs : List Char} : occursInList part cs ↔ part <:+: cs := by
  induction cs with
  | nil => simp [occursInList]
  | cons c cs ih =>
    rw [occursInList, Bool.or_eq_true, ih, List.isPrefixOf_iff_prefix, List.infix_cons_iff]

/-- The rest of the list behind `head`, if it begins so. -/
def behindList? : (head : List Char) → List Char → Option (List Char)
  | [], cs => some cs
  | _ :: _, [] => none
  | h :: hs, c :: cs => if h = c then behindList? hs cs else none

def behind? (head text : String) : Option String :=
  (behindList? head.toList text.toList).map String.ofList

theorem behindList?_eq_some {head cs rest : List Char} :
    behindList? head cs = some rest ↔ cs = head ++ rest := by
  induction head generalizing cs with
  | nil => simp [behindList?, eq_comm]
  | cons h hs ih =>
    cases cs with
    | nil => simp [behindList?]
    | cons c cs =>
      by_cases hc : h = c
      · subst hc; simp [behindList?, ih]
      · have hc' : ¬ c = h := fun e => hc e.symm
        simp [behindList?, hc, hc']

/-! ## Bytes -/

/-- A character begun: its bits so far, the continuation bytes owed, and the bounds on the next. -/
structure Begun where
  bits : Nat
  owed : Nat
  low : Nat := 0x80
  high : Nat := 0xBF

/-- What stands for bytes that are no character. -/
def replacement : Char := '\uFFFD'

/-- What a first byte begins: a whole character, a longer one, or nothing. -/
inductive Lead where
  | whole (c : Char)
  | begun (b : Begun)
  | stray

def lead (b : Nat) : Lead :=
  if b ≤ 0x7F then .whole (Char.ofNat b)
  else if 0xC2 ≤ b ∧ b ≤ 0xDF then .begun { bits := b - 0xC0, owed := 1 }
  else if b = 0xE0 then .begun { bits := 0, owed := 2, low := 0xA0 }
  else if b = 0xED then .begun { bits := 0xD, owed := 2, high := 0x9F }
  else if 0xE1 ≤ b ∧ b ≤ 0xEF then .begun { bits := b - 0xE0, owed := 2 }
  else if b = 0xF0 then .begun { bits := 0, owed := 3, low := 0x90 }
  else if 0xF1 ≤ b ∧ b ≤ 0xF3 then .begun { bits := b - 0xF0, owed := 3 }
  else if b = 0xF4 then .begun { bits := 4, owed := 3, high := 0x8F }
  else .stray

/-- Decodes the bytes after a character begun, or from between characters. -/
def decodeFrom : Option Begun → List UInt8 → List Char
  | none, [] => []
  | some _, [] => [replacement]
  | none, b :: bs =>
    match lead b.toNat with
    | .whole c => c :: decodeFrom none bs
    | .begun p => decodeFrom (some p) bs
    | .stray => replacement :: decodeFrom none bs
  | some p, b :: bs =>
    if p.low ≤ b.toNat ∧ b.toNat ≤ p.high then
      let bits := p.bits * 64 + (b.toNat - 0x80)
      if p.owed = 1 then Char.ofNat bits :: decodeFrom none bs
      else decodeFrom (some { bits := bits, owed := p.owed - 1 }) bs
    else
      match lead b.toNat with
      | .whole c => replacement :: c :: decodeFrom none bs
      | .begun q => replacement :: decodeFrom (some q) bs
      | .stray => replacement :: replacement :: decodeFrom none bs

/-- The bytes as text, with a replacement character for what is no text. -/
def decodeLossy (bytes : List UInt8) : String := String.ofList (decodeFrom none bytes)

end TradingBot.Text
