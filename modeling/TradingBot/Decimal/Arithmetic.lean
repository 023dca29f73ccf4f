import TradingBot.Decimal.Basic

/-!
# Decimal arithmetic

**Crashes** (`Crash`). Why a computation broke off instead of giving a result: it left a text, or
nothing that can be read. Whoever guards the computation describes the crash in one line
(`Crash.describe`).

**Fitting** (`Decimal.fit`). An exact result `coeff / 10 ^ scale` becomes the decimal at the largest
scale at which it fits, rounded once, half to even. If it does not fit even as a whole number there
is none, and the operation has no result.

**Sum and difference.** Exact at the larger of the two scales, then fitted. A zero operand gives
the other one with its scale as it is.

**Product.** Exact, the scales added, then fitted. A zero factor gives the plain zero, and so do
two small coefficients whose scales add up to more than 47 places.

**Overflow.** An operation without a result crashes, and the crash is named for it.
-/

namespace TradingBot

/-! ## Crashes -/

inductive Crash where
  | text (message : String)
  | unreadable
deriving DecidableEq, Repr

namespace Crash

def describe : Crash → String
  | text message => "panic: " ++ message
  | unreadable => "panic with non-string payload"

end Crash

end TradingBot

namespace TradingBot.Decimal

/-! ## Operations -/

/-- `coeff / 10 ^ scale`, rounded half to even at the largest scale from `places` down at which it
fits. -/
def fitFrom (coeff : Int) (scale : Nat) : Nat → Option Decimal
  | 0 => make? (rescale .toEven coeff scale 0) 0
  | places + 1 =>
    match make? (rescale .toEven coeff scale (places + 1)) (places + 1) with
    | some d => some d
    | none => fitFrom coeff scale places

/-- The decimal for the exact result `coeff / 10 ^ scale`, if it is in range. -/
def fit (coeff : Int) (scale : Nat) : Option Decimal := fitFrom coeff scale (min scale maxScale)

def neg (d : Decimal) : Decimal :=
  { d with coeff := -d.coeff, coeff_le := by simpa using d.coeff_le }

/-- Coefficients below this bound take one machine word. -/
def smallCoeff : Nat := 4294967296

/-- Products of two small coefficients with more places than this vanish. -/
def vanishingScale : Nat := 47

def mul? (a b : Decimal) : Option Decimal :=
  if a.coeff = 0 ∨ b.coeff = 0 then some zero
  else if a.coeff.natAbs < smallCoeff ∧ b.coeff.natAbs < smallCoeff ∧
      vanishingScale < a.scale + b.scale then some zero
  else fit (a.coeff * b.coeff) (a.scale + b.scale)

def add? (a b : Decimal) : Option Decimal :=
  if a.coeff = 0 then some b
  else if b.coeff = 0 then some a
  else
    let s := max a.scale b.scale
    fit (a.coeff * pow10 (s - a.scale) + b.coeff * pow10 (s - b.scale)) s

def sub? (a b : Decimal) : Option Decimal := add? a b.neg

/-! ## Overflow -/

/-- The result of an operation, or its overflow. -/
def orOverflow (operation : String) : Option Decimal → Except Crash Decimal
  | some d => .ok d
  | none => .error (.text (operation ++ " overflowed"))

def mul (a b : Decimal) : Except Crash Decimal := orOverflow "Multiplication" (a.mul? b)

def add (a b : Decimal) : Except Crash Decimal := orOverflow "Addition" (a.add? b)

def sub (a b : Decimal) : Except Crash Decimal := orOverflow "Subtraction" (a.sub? b)

theorem mul_eq_ok {a b d : Decimal} : a.mul b = .ok d ↔ a.mul? b = some d := by
  unfold mul orOverflow; cases a.mul? b <;> simp

theorem add_eq_ok {a b d : Decimal} : a.add b = .ok d ↔ a.add? b = some d := by
  unfold add orOverflow; cases a.add? b <;> simp

theorem sub_eq_ok {a b d : Decimal} : a.sub b = .ok d ↔ a.sub? b = some d := by
  unfold sub orOverflow; cases a.sub? b <;> simp

end TradingBot.Decimal
