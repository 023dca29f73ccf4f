import Mathlib.Algebra.Order.Field.Basic
import Mathlib.Algebra.Order.Field.Rat
import Mathlib.Tactic.FieldSimp
import Mathlib.Tactic.Linarith
import Mathlib.Tactic.NormNum.Basic
import Mathlib.Tactic.Ring
import TradingBot.Decimal.Arithmetic

/-!
# When decimal arithmetic has no result

**The value** (`Decimal.value`). The rational number that a decimal stands for, whatever its scale.
The order of decimals is the order of their values (`Decimal.le_iff_value_le`).

**The range** (`Decimal.OutOfRange`). A number is out of range from half-way between the largest
decimal and the next whole number on: the largest coefficient is odd, so a tie goes up.

**Theorem (`Decimal.mul?_eq_none_iff`, `Decimal.add?_eq_none_iff`, `Decimal.sub?_eq_none_iff`).** An
operation has no result exactly if the exact result is out of range. Trying fewer and fewer places
does not help: rounding to a whole number gives the smallest coefficient.

**Theorem (`Decimal.mul?_near`).** A product that has a result is at most one half off.
-/

/-! ## The value of a decimal -/

namespace TradingBot.Decimal

/-- The number that a decimal stands for. -/
def value (d : Decimal) : ℚ := d.coeff / pow10 d.scale

theorem pow10_cast_pos (n : ℕ) : (0 : ℚ) < pow10 n := by
  exact_mod_cast pow10_pos n

theorem le_iff_value_le {a b : Decimal} : a ≤ b ↔ a.value ≤ b.value := by
  rw [le_def, value, value, div_le_div_iff₀ (pow10_cast_pos _) (pow10_cast_pos _)]
  exact_mod_cast Iff.rfl

theorem lt_iff_value_lt {a b : Decimal} : a < b ↔ a.value < b.value := by
  rw [← not_le, le_iff_value_le, lt_iff_not_ge]

theorem sameValue_iff_value_eq {a b : Decimal} : a.SameValue b ↔ a.value = b.value := by
  rw [SameValue, value, value, div_eq_div_iff (pow10_cast_pos _).ne' (pow10_cast_pos _).ne']
  exact_mod_cast Iff.rfl

end TradingBot.Decimal

namespace TradingBot

/-! ## Rounded quotients -/

/-- A rounded quotient is the quotient, of which less than one half was cut, or the next number. -/
theorem roundDiv_cases (tie : Tie) (n : Nat) {d : Nat} (hd : 0 < d) :
    (roundDiv tie n d = n / d ∧ 2 * (n % d) ≤ d) ∨
      (roundDiv tie n d = n / d + 1 ∧ d ≤ 2 * (n % d)) := by
  have hlt : n % d < d := Nat.mod_lt n hd
  unfold roundDiv
  dsimp only
  split
  · exact .inl ⟨rfl, by omega⟩
  · split
    · exact .inr ⟨rfl, by omega⟩
    · cases tie with
      | toEven =>
        dsimp only
        rcases Nat.mod_two_eq_zero_or_one (n / d) with h | h
        · exact .inl ⟨by omega, by omega⟩
        · exact .inr ⟨by omega, by omega⟩
      | away => exact .inr ⟨rfl, by omega⟩

theorem roundDiv_near (tie : Tie) (n : Nat) {d : Nat} (hd : 0 < d) :
    2 * n ≤ 2 * (d * roundDiv tie n d) + d ∧ 2 * (d * roundDiv tie n d) ≤ 2 * n + d := by
  have hdiv : d * (n / d) + n % d = n := Nat.div_add_mod n d
  have hlt : n % d < d := Nat.mod_lt n hd
  rcases roundDiv_cases tie n hd with ⟨h, hr⟩ | ⟨h, hr⟩
  · rw [h]
    omega
  · rw [h, Nat.mul_succ]
    omega

/-- The number next to an odd one is even, so a tie between the two goes up. -/
theorem roundDiv_le_iff {m n d : Nat} (hm : m % 2 = 1) (hd : 0 < d) :
    roundDiv .toEven n d ≤ m ↔ 2 * n < (2 * m + 1) * d := by
  have hdiv : d * (n / d) + n % d = n := Nat.div_add_mod n d
  have hlt : n % d < d := Nat.mod_lt n hd
  have hexpand : (2 * m + 1) * d = 2 * (d * m) + d := by ring
  rcases Nat.lt_trichotomy (n / d) m with h | h | h
  · have hmul : d * (n / d + 1) ≤ d * m := Nat.mul_le_mul_left d h
    rw [Nat.mul_succ] at hmul
    have hle : roundDiv .toEven n d ≤ m := by
      rcases roundDiv_cases .toEven n hd with ⟨h', -⟩ | ⟨h', -⟩ <;> omega
    exact iff_of_true hle (by omega)
  -- The quotient is the odd number itself: the remainder decides, and a tie goes up.
  · unfold roundDiv
    dsimp only
    rw [h] at hdiv ⊢
    split
    · omega
    · split <;> omega
  · have hmul : d * (m + 1) ≤ d * (n / d) := Nat.mul_le_mul_left d h
    rw [Nat.mul_succ] at hmul
    have hgt : ¬ roundDiv .toEven n d ≤ m := by
      rcases roundDiv_cases .toEven n hd with ⟨h', -⟩ | ⟨h', -⟩ <;> omega
    exact iff_of_false hgt (by omega)

theorem natAbs_roundDivInt (tie : Tie) (n : Int) {d : Nat} (hd : 0 < d) :
    (roundDivInt tie n d).natAbs = roundDiv tie n.natAbs d := by
  rw [roundDivInt, Int.natAbs_mul, Int.natAbs_natCast]
  by_cases h : n = 0
  · subst h
    simp [roundDiv, hd]
  · rw [Int.natAbs_sign_of_ne_zero h, Nat.one_mul]

namespace Decimal

/-! ## Fitting -/

/-- The number cannot be rounded to a decimal. -/
def OutOfRange (q : ℚ) : Prop := maxCoeff + 1 / 2 ≤ |q|

theorem make?_eq_none_iff {c : Int} {places : Nat} (h : places ≤ maxScale) :
    make? c places = none ↔ maxCoeff < c.natAbs := by
  simp [make?, h]

theorem fitFrom_eq_none_iff {c : Int} {s places : Nat} :
    fitFrom c s places = none ↔
      ∀ k ≤ places, make? (rescale .toEven c s k) k = none := by
  induction places with
  | zero => simp [fitFrom]
  | succ places ih =>
    rw [fitFrom]
    constructor
    · intro h k hk
      split at h
      · cases h
      · next hnone =>
        rcases Nat.le_succ_iff.mp hk with hk | rfl
        · exact ih.mp h k hk
        · exact hnone
    · intro h
      rw [h _ (Nat.le_refl _)]
      exact ih.mpr fun k hk => h k (Nat.le_succ_of_le hk)

theorem make?_rescale_eq_none_iff {c : Int} {s places : Nat} (h : places ≤ maxScale) :
    make? (rescale .toEven c s places) places = none ↔
      (2 * maxCoeff + 1) * pow10 (s - places) ≤ 2 * c.natAbs := by
  rw [make?_eq_none_iff h, rescale, natAbs_roundDivInt _ _ (pow10_pos _), ← Nat.not_le,
    roundDiv_le_iff (by decide) (pow10_pos _), Nat.not_lt]

theorem pow10_mono {m n : Nat} (h : m ≤ n) : pow10 m ≤ pow10 n :=
  Nat.pow_le_pow_right (by decide) h

/-- If a coefficient does not fit without any places, it does not fit at all. -/
theorem fit_eq_none_iff_le {c : Int} {s : Nat} :
    fit c s = none ↔ (2 * maxCoeff + 1) * pow10 s ≤ 2 * c.natAbs := by
  rw [fit, fitFrom_eq_none_iff]
  constructor
  · intro h
    exact (make?_rescale_eq_none_iff (Nat.zero_le _)).mp (h 0 (Nat.zero_le _))
  · intro h k hk
    refine (make?_rescale_eq_none_iff (hk.trans (Nat.min_le_right _ _))).mpr (Nat.le_trans ?_ h)
    exact Nat.mul_le_mul_left _ (pow10_mono (Nat.sub_le s k))

theorem outOfRange_div_iff {c : Int} {s : Nat} :
    OutOfRange (c / pow10 s) ↔ (2 * maxCoeff + 1) * pow10 s ≤ 2 * c.natAbs := by
  have hpos := pow10_cast_pos s
  rw [OutOfRange, abs_div, abs_of_pos hpos, le_div_iff₀ hpos]
  have habs : |(c : ℚ)| = (c.natAbs : ℚ) := by rw [Nat.cast_natAbs, Int.cast_abs]
  rw [habs]
  have hcast : ((2 * maxCoeff + 1) * pow10 s ≤ 2 * c.natAbs) ↔
      ((2 * maxCoeff + 1 : ℚ) * pow10 s ≤ 2 * c.natAbs) := by exact_mod_cast Iff.rfl
  rw [hcast]
  constructor <;> intro h <;> linarith

/-- **There is no decimal** for an exact result that is out of range, and for no other. -/
theorem fit_eq_none_iff {c : Int} {s : Nat} : fit c s = none ↔ OutOfRange (c / pow10 s) := by
  rw [fit_eq_none_iff_le, outOfRange_div_iff]

theorem abs_value_le (d : Decimal) : |d.value| ≤ maxCoeff := by
  have hpos := pow10_cast_pos d.scale
  have hone : (1 : ℚ) ≤ pow10 d.scale := by exact_mod_cast pow10_pos d.scale
  have habs : |(d.coeff : ℚ)| = (d.coeff.natAbs : ℚ) := by rw [Nat.cast_natAbs, Int.cast_abs]
  have hle : (d.coeff.natAbs : ℚ) ≤ maxCoeff := by exact_mod_cast d.coeff_le
  have hmax : (maxCoeff : ℚ) * 1 ≤ maxCoeff * pow10 d.scale :=
    mul_le_mul_of_nonneg_left hone (Nat.cast_nonneg _)
  rw [value, abs_div, abs_of_pos hpos, div_le_iff₀ hpos, habs]
  linarith

theorem not_outOfRange_of_lt {q : ℚ} (h : |q| < maxCoeff + 1 / 2) : ¬ OutOfRange q :=
  not_le_of_gt h

theorem not_outOfRange (d : Decimal) : ¬ OutOfRange d.value := by
  have h := d.abs_value_le
  exact not_outOfRange_of_lt (by linarith)

/-! ## The operations -/

theorem value_eq_zero {d : Decimal} (h : d.coeff = 0) : d.value = 0 := by
  rw [value, h, Int.cast_zero, zero_div]

@[simp] theorem value_zero : zero.value = 0 := value_eq_zero rfl

theorem zero_le_iff {d : Decimal} : zero ≤ d ↔ 0 ≤ d.value := by
  rw [le_iff_value_le, value_zero]

theorem value_neg (d : Decimal) : d.neg.value = -d.value := by
  rw [value, value, neg, Int.cast_neg, neg_div]

theorem value_mul (a b : Decimal) :
    a.value * b.value = ((a.coeff * b.coeff : Int) : ℚ) / pow10 (a.scale + b.scale) := by
  rw [value, value, pow10_add, Nat.cast_mul, Int.cast_mul, div_mul_div_comm]

theorem value_eq_div {d : Decimal} {s : Nat} (h : d.scale ≤ s) :
    d.value = ((d.coeff * pow10 (s - d.scale) : Int) : ℚ) / pow10 s := by
  have hs : pow10 s = pow10 d.scale * pow10 (s - d.scale) := by
    rw [← pow10_add, Nat.add_sub_cancel' h]
  have h1 := (pow10_cast_pos d.scale).ne'
  have h2 := (pow10_cast_pos (s - d.scale)).ne'
  rw [value, hs]
  push_cast
  field_simp

theorem value_add {a b : Decimal} {s : Nat} (ha : a.scale ≤ s) (hb : b.scale ≤ s) :
    a.value + b.value =
      ((a.coeff * pow10 (s - a.scale) + b.coeff * pow10 (s - b.scale) : Int) : ℚ) / pow10 s := by
  rw [value_eq_div ha, value_eq_div hb, ← add_div, ← Int.cast_add]

theorem value_mul_eq_zero {a b : Decimal} (h : a.coeff = 0 ∨ b.coeff = 0) :
    a.value * b.value = 0 := by
  rcases h with h | h <;> rw [value_eq_zero h] <;> ring

/-- A product that is left out because of its many places is smaller than one half of the last
place that there can be. -/
theorem abs_mul_lt_of_vanishing {a b : Decimal} (ha : a.coeff.natAbs < smallCoeff)
    (hb : b.coeff.natAbs < smallCoeff) (hs : vanishingScale < a.scale + b.scale) :
    |a.value * b.value| < 1 / 2 / pow10 maxScale := by
  have hpos := pow10_cast_pos (a.scale + b.scale)
  have hprod : a.coeff.natAbs * b.coeff.natAbs ≤ smallCoeff * smallCoeff :=
    Nat.mul_le_mul ha.le hb.le
  have hpow : pow10 48 ≤ pow10 (a.scale + b.scale) := pow10_mono hs
  have hnum : 2 * (smallCoeff * smallCoeff) * pow10 maxScale < pow10 48 := by decide
  have habs : |((a.coeff * b.coeff : Int) : ℚ)| =
      ((a.coeff.natAbs * b.coeff.natAbs : Nat) : ℚ) := by
    rw [← Int.natAbs_mul, Nat.cast_natAbs, Int.cast_abs]
  rw [value_mul, abs_div, abs_of_pos hpos, div_lt_div_iff₀ hpos (pow10_cast_pos _), habs]
  have hlt : 2 * (a.coeff.natAbs * b.coeff.natAbs) * pow10 maxScale < pow10 (a.scale + b.scale) :=
    (Nat.mul_le_mul_right _ (Nat.mul_le_mul_left 2 hprod)).trans_lt (hnum.trans_le hpow)
  have hcast : (2 * (a.coeff.natAbs * b.coeff.natAbs : Nat) * pow10 maxScale : ℚ) <
      pow10 (a.scale + b.scale) := by
    exact_mod_cast hlt
  linarith

theorem half_div_le : (1 / 2 / pow10 maxScale : ℚ) ≤ 1 / 2 :=
  div_le_self (by norm_num) (by exact_mod_cast pow10_pos maxScale)

theorem mul?_eq_none_iff {a b : Decimal} : a.mul? b = none ↔ OutOfRange (a.value * b.value) := by
  have hsmall {q : ℚ} (h : |q| < 1 / 2) : ¬ OutOfRange q := by
    refine not_outOfRange_of_lt (h.trans_le ?_)
    have hmax : (0 : ℚ) ≤ maxCoeff := Nat.cast_nonneg _
    linarith
  unfold mul?
  split
  · next h0 =>
    exact iff_of_false nofun (hsmall (by rw [value_mul_eq_zero h0]; norm_num))
  · split
    · next hv =>
      exact iff_of_false nofun
        (hsmall ((abs_mul_lt_of_vanishing hv.1 hv.2.1 hv.2.2).trans_le half_div_le))
    · rw [fit_eq_none_iff, value_mul]

theorem add?_eq_none_iff {a b : Decimal} : a.add? b = none ↔ OutOfRange (a.value + b.value) := by
  unfold add?
  split
  · next h0 =>
    rw [value_eq_zero h0, zero_add]
    exact iff_of_false nofun b.not_outOfRange
  · split
    · next h0 =>
      rw [value_eq_zero h0, add_zero]
      exact iff_of_false nofun a.not_outOfRange
    · dsimp only
      rw [fit_eq_none_iff, value_add (Nat.le_max_left _ _) (Nat.le_max_right _ _)]

theorem sub?_eq_none_iff {a b : Decimal} : a.sub? b = none ↔ OutOfRange (a.value - b.value) := by
  rw [sub?, add?_eq_none_iff, value_neg, sub_eq_add_neg]

/-! ## How far off a result is -/

theorem fitFrom_eq_some {c : Int} {s places : Nat} {d : Decimal} (h : fitFrom c s places = some d) :
    d.scale ≤ places ∧ d.coeff = rescale .toEven c s d.scale := by
  induction places with
  | zero =>
    obtain ⟨hc, hs⟩ := make?_eq_some.mp h
    exact ⟨hs.le, by rw [hc, hs]⟩
  | succ places ih =>
    rw [fitFrom] at h
    split at h
    · next hd =>
      cases h
      obtain ⟨hc, hs⟩ := make?_eq_some.mp hd
      exact ⟨hs.le, by rw [hc, hs]⟩
    · obtain ⟨hs, hc⟩ := ih h
      exact ⟨Nat.le_succ_of_le hs, hc⟩

theorem roundDivInt_near (tie : Tie) (n : Int) {d : Nat} (hd : 0 < d) :
    |(roundDivInt tie n d : ℚ) - n / d| ≤ 1 / 2 := by
  have hpos : (0 : ℚ) < d := by exact_mod_cast hd
  obtain ⟨h1, h2⟩ := roundDiv_near tie n.natAbs hd
  have h1' : (2 * n.natAbs : ℚ) ≤ 2 * (d * roundDiv tie n.natAbs d) + d := by exact_mod_cast h1
  have h2' : (2 * (d * roundDiv tie n.natAbs d) : ℚ) ≤ 2 * n.natAbs + d := by exact_mod_cast h2
  -- Rounding takes the sign off and puts it back, which keeps the distance.
  have hn : (n : ℚ) = n.sign * n.natAbs := by
    rw [← Int.cast_natCast, ← Int.cast_mul, Int.sign_mul_natAbs]
  have hsign : |(n.sign : ℚ)| ≤ 1 := by
    rcases Int.lt_trichotomy n 0 with h | h | h
    · simp [Int.sign_eq_neg_one_of_neg h]
    · simp [h]
    · simp [Int.sign_eq_one_of_pos h]
  have hdist : |(roundDiv tie n.natAbs d : ℚ) - n.natAbs / d| ≤ 1 / 2 := by
    have hsub : (roundDiv tie n.natAbs d : ℚ) - n.natAbs / d =
        (d * roundDiv tie n.natAbs d - n.natAbs) / d := by field_simp
    rw [hsub, abs_div, abs_of_pos hpos, div_le_iff₀ hpos, abs_le]
    constructor <;> linarith
  calc |(roundDivInt tie n d : ℚ) - n / d|
      = |(n.sign : ℚ)| * |(roundDiv tie n.natAbs d : ℚ) - n.natAbs / d| := by
        rw [← abs_mul, roundDivInt, Int.cast_mul, Int.cast_natCast, hn]
        congr 1
        ring
    _ ≤ 1 * (1 / 2) := mul_le_mul hsign hdist (abs_nonneg _) zero_le_one
    _ = 1 / 2 := one_mul _

/-- **A decimal that is made to fit is at most one half off.** -/
theorem fit_near {c : Int} {s : Nat} {d : Decimal} (h : fit c s = some d) :
    |d.value - c / pow10 s| ≤ 1 / 2 := by
  obtain ⟨hs, hc⟩ := fitFrom_eq_some h
  have hle : d.scale ≤ s := hs.trans (Nat.min_le_left _ _)
  have hpos := pow10_cast_pos d.scale
  have hone : (1 : ℚ) ≤ pow10 d.scale := by exact_mod_cast pow10_pos d.scale
  have hsplit : (c : ℚ) / pow10 s = c / pow10 (s - d.scale) / pow10 d.scale := by
    rw [div_div, ← Nat.cast_mul, ← pow10_add, Nat.sub_add_cancel hle]
  have hnear := roundDivInt_near .toEven c (pow10_pos (s - d.scale))
  rw [value, hc, rescale, hsplit, ← sub_div, abs_div, abs_of_pos hpos]
  exact (div_le_self (abs_nonneg _) hone).trans hnear

/-- A product is zero where it is too small for all places, and is fitted otherwise. -/
theorem mul?_cases {a b d : Decimal} (h : a.mul? b = some d) :
    (d = zero ∧ |a.value * b.value| < 1 / 2 / pow10 maxScale) ∨
      fit (a.coeff * b.coeff) (a.scale + b.scale) = some d := by
  unfold mul? at h
  split at h
  · next h0 =>
    cases h
    rw [value_mul_eq_zero h0, abs_zero]
    exact .inl ⟨rfl, div_pos (by norm_num) (pow10_cast_pos _)⟩
  · split at h
    · next hv =>
      cases h
      exact .inl ⟨rfl, abs_mul_lt_of_vanishing hv.1 hv.2.1 hv.2.2⟩
    · exact .inr h

/-- **A product that has a result is at most one half off.** -/
theorem mul?_near {a b d : Decimal} (h : a.mul? b = some d) :
    |d.value - a.value * b.value| ≤ 1 / 2 := by
  rcases mul?_cases h with ⟨rfl, hsmall⟩ | hfit
  · rw [value_zero, zero_sub, abs_neg]
    exact (hsmall.trans_le half_div_le).le
  · rw [value_mul]
    exact fit_near hfit

end Decimal

end TradingBot
