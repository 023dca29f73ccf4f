import TradingBot.Rounding

/-!
# Decimals

**The type** (`Decimal`). An integer coefficient of at most 96 bits and a number of fraction
digits (the *scale*) from 0 to 28; the value is `coeff / 10 ^ scale`. The scale is part of the
number, so `1.5` and `1.50` are two decimals of one value. Zero has no sign.

**Order.** `≤` and `<` compare values, whatever the scales.

**Making one.** `make?` gives the decimal of a coefficient and a scale if they are in range.
-/

namespace TradingBot

/-- The largest coefficient, `2 ^ 96 - 1`. -/
def Decimal.maxCoeff : Nat := 79228162514264337593543950335

/-- The largest number of fraction digits. -/
def Decimal.maxScale : Nat := 28

/-- The number `coeff / 10 ^ scale`, written with `scale` fraction digits. -/
structure Decimal where
  coeff : Int
  scale : Nat
  coeff_le : coeff.natAbs ≤ Decimal.maxCoeff := by decide
  scale_le : scale ≤ Decimal.maxScale := by decide
deriving DecidableEq, Repr

namespace Decimal

/-- The decimal with this coefficient and scale, if both are in range. -/
def make? (coeff : Int) (scale : Nat) : Option Decimal :=
  if h : coeff.natAbs ≤ maxCoeff ∧ scale ≤ maxScale then some ⟨coeff, scale, h.1, h.2⟩ else none

def ofNat (n : Nat) (h : n ≤ maxCoeff := by decide) : Decimal :=
  ⟨n, 0, by simpa using h, by decide⟩

def zero : Decimal := ofNat 0

def one : Decimal := ofNat 1

instance : Inhabited Decimal := ⟨zero⟩

/-! ## Order by value -/

instance : LE Decimal := ⟨fun a b => a.coeff * pow10 b.scale ≤ b.coeff * pow10 a.scale⟩

instance : LT Decimal := ⟨fun a b => a.coeff * pow10 b.scale < b.coeff * pow10 a.scale⟩

instance (a b : Decimal) : Decidable (a ≤ b) :=
  inferInstanceAs (Decidable (a.coeff * pow10 b.scale ≤ b.coeff * pow10 a.scale))

instance (a b : Decimal) : Decidable (a < b) :=
  inferInstanceAs (Decidable (a.coeff * pow10 b.scale < b.coeff * pow10 a.scale))

/-- Two decimals of one value, perhaps at different scales. -/
def SameValue (a b : Decimal) : Prop := a.coeff * pow10 b.scale = b.coeff * pow10 a.scale

instance (a b : Decimal) : Decidable (a.SameValue b) :=
  inferInstanceAs (Decidable (a.coeff * pow10 b.scale = b.coeff * pow10 a.scale))

theorem le_def {a b : Decimal} : a ≤ b ↔ a.coeff * pow10 b.scale ≤ b.coeff * pow10 a.scale := .rfl

theorem lt_def {a b : Decimal} : a < b ↔ a.coeff * pow10 b.scale < b.coeff * pow10 a.scale := .rfl

theorem not_le {a b : Decimal} : ¬ a ≤ b ↔ b < a := by rw [le_def, lt_def]; omega

theorem not_lt {a b : Decimal} : ¬ a < b ↔ b ≤ a := by rw [le_def, lt_def]; omega

/-- A decimal is positive exactly if its coefficient is. -/
theorem zero_lt {a : Decimal} : zero < a ↔ 0 < a.coeff := by
  rw [lt_def]; simp [zero, ofNat]

theorem lt_zero {a : Decimal} : a < zero ↔ a.coeff < 0 := by
  rw [lt_def]; simp [zero, ofNat]

theorem make?_eq_some {c : Int} {s : Nat} {d : Decimal} :
    make? c s = some d ↔ d.coeff = c ∧ d.scale = s := by
  unfold make?
  constructor
  · intro h
    split at h
    · cases h; exact ⟨rfl, rfl⟩
    · cases h
  · rintro ⟨rfl, rfl⟩
    simp [d.coeff_le, d.scale_le]

/-! ## Fewer places -/

/-- The coefficient at `places` fraction digits of the number `coeff / 10 ^ scale`. -/
def rescale (tie : Tie) (coeff : Int) (scale places : Nat) : Int :=
  roundDivInt tie coeff (pow10 (scale - places))

/-- At most `places` fraction digits; a half goes to the even neighbour. -/
def roundTo (places : Nat) (d : Decimal) : Decimal :=
  if places < d.scale then
    { coeff := rescale .toEven d.coeff d.scale (min places maxScale)
      scale := min places maxScale
      coeff_le := Nat.le_trans (natAbs_roundDivInt_le _ _ (pow10_pos _)) d.coeff_le
      scale_le := Nat.min_le_right _ _ }
  else d

/-- Drops fraction digits that are zero, from the last one on. -/
def dropZeros (coeff : Int) : Nat → Int × Nat
  | 0 => (coeff, 0)
  | s + 1 => if coeff % 10 = 0 then dropZeros (coeff / 10) s else (coeff, s + 1)

theorem natAbs_dropZeros_le (coeff : Int) (s : Nat) :
    (dropZeros coeff s).1.natAbs ≤ coeff.natAbs := by
  induction s generalizing coeff with
  | zero => exact Nat.le_refl _
  | succ s ih =>
    unfold dropZeros
    split
    · exact Nat.le_trans (ih _) (by omega)
    · exact Nat.le_refl _

theorem dropZeros_scale_le (coeff : Int) (s : Nat) : (dropZeros coeff s).2 ≤ s := by
  induction s generalizing coeff with
  | zero => exact Nat.le_refl _
  | succ s ih =>
    unfold dropZeros
    split
    · exact Nat.le_succ_of_le (ih _)
    · exact Nat.le_refl _

/-- The decimal of the same value without trailing zeros in the fraction. -/
def normalize (d : Decimal) : Decimal where
  coeff := (dropZeros d.coeff d.scale).1
  scale := (dropZeros d.coeff d.scale).2
  coeff_le := Nat.le_trans (natAbs_dropZeros_le _ _) d.coeff_le
  scale_le := Nat.le_trans (dropZeros_scale_le _ _) d.scale_le

end Decimal

end TradingBot
