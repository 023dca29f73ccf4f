import TradingBot.Proofs.DecimalRange

/-!
# How decimal arithmetic rounds

**Nearest integers** (`NearestEven`). An integer that is at most one half away from a number, and
even if it is just one half away.

**Rounding** (`Decimal.Rounds`). The decimal is the number itself, or it is the nearest one with as
many places as there can be: with more of them, the number would be out of range. Sums, differences
and products are the exact ones, rounded (`Decimal.add?_rounds` and its companions).

**Theorem (`Decimal.Rounds.mono`).** The larger number is not rounded to the smaller decimal,
whatever the numbers of places. Where the larger one has to do with fewer places, it is so large
that the smaller one lies below all that these places can express.
-/

namespace TradingBot

/-! ## Nearest integers -/

/-- The integer is nearest to the number; a half goes to the even one. -/
def NearestEven (q : ℚ) (n : ℤ) : Prop := |q - n| ≤ 1 / 2 ∧ (|q - n| = 1 / 2 → Even n)

namespace NearestEven

variable {q q' : ℚ} {n n' : ℤ}

theorem self (n : ℤ) : NearestEven n n := by
  rw [NearestEven, sub_self, abs_zero]
  exact ⟨by norm_num, fun h => by norm_num at h⟩

theorem neg (h : NearestEven q n) : NearestEven (-q) (-n) := by
  have habs : |-q - ((-n : ℤ) : ℚ)| = |q - n| := by
    rw [Int.cast_neg, ← neg_sub', abs_neg]
  rw [NearestEven, habs, even_neg]
  exact h

/-- **Nearest integers keep the order.** Only at a tie could they cross, and there both are even. -/
theorem mono (h : NearestEven q n) (h' : NearestEven q' n') (hq : q ≤ q') : n ≤ n' := by
  by_contra hlt
  have hlt : (n' : ℚ) + 1 ≤ n := by exact_mod_cast Int.not_le.mp hlt
  obtain ⟨h1, h2⟩ := abs_le.mp h.1
  obtain ⟨h1', h2'⟩ := abs_le.mp h'.1
  have hqn : q - n = -(1 / 2) := by linarith
  have hqn' : q' - n' = 1 / 2 := by linarith
  have heven := h.2 (by rw [hqn]; norm_num)
  have heven' := h'.2 (by rw [hqn']; norm_num)
  have hsucc : n = n' + 1 := by
    have hcast : (n : ℚ) = n' + 1 := by linarith
    exact_mod_cast hcast
  rw [hsucc, Int.even_add_one] at heven
  exact heven heven'

end NearestEven

theorem even_roundDiv {n d : ℕ} (hd : 0 < d)
    (h : 2 * n = 2 * (d * roundDiv .toEven n d) + d ∨ 2 * (d * roundDiv .toEven n d) = 2 * n + d) :
    Even (roundDiv .toEven n d) := by
  have hdiv : d * (n / d) + n % d = n := Nat.div_add_mod n d
  have hlt : n % d < d := Nat.mod_lt n hd
  revert h
  unfold roundDiv
  dsimp only
  split
  · next hbelow =>
    intro h
    omega
  · split
    · next habove =>
      rw [Nat.mul_succ]
      intro h
      omega
    · rw [Nat.even_iff]
      omega

theorem roundDivInt_neg (tie : Tie) (n : ℤ) (d : ℕ) :
    roundDivInt tie (-n) d = -roundDivInt tie n d := by
  rw [roundDivInt, roundDivInt, Int.sign_neg, Int.natAbs_neg, Int.neg_mul]

/-- **A quotient is rounded to its nearest integer**, half to even. -/
theorem nearestEven_roundDivInt (n : ℤ) {d : ℕ} (hd : 0 < d) :
    NearestEven (n / d) (roundDivInt .toEven n d) := by
  have hpos : (0 : ℚ) < d := by exact_mod_cast hd
  have hnat (n : ℕ) : NearestEven (n / d) (roundDivInt .toEven n d) := by
    have hnear := Decimal.roundDivInt_near .toEven n hd
    have hround : roundDivInt .toEven n d = roundDiv .toEven n d := by
      rcases Nat.eq_zero_or_pos n with rfl | hn
      · simp [roundDivInt, roundDiv, hd]
      · rw [roundDivInt, Int.sign_natCast_of_ne_zero hn.ne', Int.natAbs_natCast, Int.one_mul]
    rw [hround] at hnear ⊢
    rw [abs_sub_comm, Int.cast_natCast] at hnear
    refine ⟨hnear, fun htie => ?_⟩
    rw [Int.cast_natCast] at htie
    rw [Int.even_coe_nat]
    apply even_roundDiv hd
    rcases (abs_eq (by norm_num)).mp htie with h | h
    · left
      have hn : (2 : ℚ) * n = 2 * (d * roundDiv .toEven n d) + d := by
        field_simp at h
        linarith
      exact_mod_cast hn
    · right
      have hn : (2 : ℚ) * (d * roundDiv .toEven n d) = 2 * n + d := by
        field_simp at h
        linarith
      exact_mod_cast hn
  rcases n.eq_nat_or_neg with ⟨m, rfl | rfl⟩
  · exact hnat m
  · rw [roundDivInt_neg, Int.cast_neg, neg_div]
    exact (hnat m).neg

namespace Decimal

/-! ## Rounded decimals -/

/-- The decimal has the nearest value to a number with its places, and is the number itself or
cannot have more places. -/
structure Fits (q : ℚ) (d : Decimal) : Prop where
  nearest : NearestEven (q * pow10 d.scale) d.coeff
  widest : d.value = q ∨ ∀ places, d.scale < places → places ≤ maxScale →
    OutOfRange (q * pow10 places)

/-- The decimal has the value to which a number is rounded. -/
def Rounds (q : ℚ) (d : Decimal) : Prop := ∃ e, Fits q e ∧ e.value = d.value

variable {q q' : ℚ} {d d' e : Decimal}

theorem value_mul_pow10 (d : Decimal) : d.value * pow10 d.scale = d.coeff :=
  div_mul_cancel₀ _ (pow10_cast_pos _).ne'

theorem value_mul_pow10_of_le {s : ℕ} (h : d.scale ≤ s) :
    d.value * pow10 s = ((d.coeff * pow10 (s - d.scale) : ℤ) : ℚ) := by
  rw [value_eq_div h, div_mul_cancel₀ _ (pow10_cast_pos s).ne']

theorem le_value_iff {d : Decimal} : q ≤ d.value ↔ q * pow10 d.scale ≤ d.coeff := by
  rw [value, le_div_iff₀ (pow10_cast_pos _)]

theorem value_le_iff {d : Decimal} : d.value ≤ q ↔ (d.coeff : ℚ) ≤ q * pow10 d.scale := by
  rw [value, div_le_iff₀ (pow10_cast_pos _)]

theorem fits_self (d : Decimal) : Fits d.value d where
  nearest := by
    rw [value_mul_pow10]
    exact .self _
  widest := .inl rfl

theorem rounds_self (d : Decimal) : Rounds d.value d := ⟨d, d.fits_self, rfl⟩

theorem OutOfRange.mono (h : OutOfRange q) (hq : |q| ≤ |q'|) : OutOfRange q' := le_trans h hq

/-- A coefficient that fits is not nearest to a number out of range: the largest one is odd. -/
theorem not_outOfRange_of_nearest {n : ℤ} (h : NearestEven q n) (hn : n.natAbs ≤ maxCoeff) :
    ¬ OutOfRange q := by
  intro hout
  have hout : (maxCoeff : ℚ) + 1 / 2 ≤ |q| := hout
  have habs : |(n : ℚ)| = (n.natAbs : ℚ) := by rw [Nat.cast_natAbs, Int.cast_abs]
  have hle : (n.natAbs : ℚ) ≤ maxCoeff := by exact_mod_cast hn
  have htri : |q| ≤ |q - n| + |(n : ℚ)| := by
    simpa using abs_add_le (q - n) n
  have heven := h.2 (by linarith [h.1])
  have hmax : (n.natAbs : ℚ) = maxCoeff := by linarith [h.1]
  have hmax : n.natAbs = maxCoeff := by exact_mod_cast hmax
  rw [← Int.natAbs_even, hmax] at heven
  exact absurd heven (by decide)

/-- A number that is out of range with one more place has a coefficient that is at least a tenth of
the largest one. -/
theorem le_of_outOfRange_mul_ten {n : ℤ} (h : NearestEven q n) (h0 : 0 ≤ q)
    (hout : OutOfRange (q * 10)) : (maxCoeff : ℤ) ≤ n * 10 := by
  have hout : (maxCoeff : ℚ) + 1 / 2 ≤ |q * 10| := hout
  rw [abs_of_nonneg (by linarith)] at hout
  obtain ⟨-, hn⟩ := abs_le.mp h.1
  have hcast : (2 * maxCoeff - 9 : ℚ) ≤ 20 * n := by linarith
  have hint : (2 * maxCoeff - 9 : ℤ) ≤ 20 * n := by exact_mod_cast hcast
  have hmax : (maxCoeff : ℤ) = 79228162514264337593543950335 := rfl
  omega

/-! ## What fits -/

theorem fitFrom_skips {c : ℤ} {s places : ℕ} (h : fitFrom c s places = some d) (k : ℕ)
    (hd : d.scale < k) (hk : k ≤ places) : make? (rescale .toEven c s k) k = none := by
  induction places with
  | zero => exact absurd (hd.trans_le hk) (Nat.not_lt_zero _)
  | succ places ih =>
    rw [fitFrom] at h
    split at h
    · next hmake =>
      cases h
      obtain ⟨-, hs⟩ := make?_eq_some.mp hmake
      omega
    · next hnone =>
      rcases Nat.le_succ_iff.mp hk with hk | rfl
      · exact ih h hk
      · exact hnone

theorem div_pow10_mul {c : ℤ} {s k : ℕ} (h : k ≤ s) :
    (c : ℚ) / pow10 s * pow10 k = c / pow10 (s - k) := by
  have hs : pow10 s = pow10 (s - k) * pow10 k := by rw [← pow10_add, Nat.sub_add_cancel h]
  have h1 := (pow10_cast_pos k).ne'
  have h2 := (pow10_cast_pos (s - k)).ne'
  rw [hs]
  push_cast
  field_simp

theorem abs_mul_pow10_le {m n : ℕ} (h : m ≤ n) : |q * pow10 m| ≤ |q * pow10 n| := by
  have hpow : (pow10 m : ℚ) ≤ pow10 n := by exact_mod_cast pow10_mono h
  rw [abs_mul, abs_mul, abs_of_pos (pow10_cast_pos m), abs_of_pos (pow10_cast_pos n)]
  exact mul_le_mul_of_nonneg_left hpow (abs_nonneg q)

/-- **An exact result is made to fit by rounding it.** -/
theorem fit_fits {c : ℤ} {s : ℕ} (h : fit c s = some d) : Fits (c / pow10 s) d := by
  obtain ⟨hplaces, hcoeff⟩ := fitFrom_eq_some h
  have hle : d.scale ≤ s := hplaces.trans (Nat.min_le_left _ _)
  have hout (k : ℕ) (hd : d.scale < k) (hk : k ≤ min s maxScale) :
      OutOfRange (c / pow10 s * pow10 k) := by
    have hnone := fitFrom_skips h k hd hk
    rw [make?_rescale_eq_none_iff (hk.trans (Nat.min_le_right _ _))] at hnone
    rw [div_pow10_mul (hk.trans (Nat.min_le_left _ _)), outOfRange_div_iff]
    exact hnone
  constructor
  · rw [div_pow10_mul hle, hcoeff]
    exact nearestEven_roundDivInt c (pow10_pos _)
  · rcases hle.lt_or_eq with hlt | heq
    · right
      intro k hd hk
      rcases Nat.le_total k s with hks | hsk
      · exact hout k hd (le_min hks hk)
      · exact (hout s hlt (le_min (Nat.le_refl s) (hsk.trans hk))).mono (abs_mul_pow10_le hsk)
    · left
      have hone : roundDivInt .toEven c 1 = c := by
        have hint := (nearestEven_roundDivInt c Nat.one_pos).mono (.self c) (by simp)
        have hint' := (NearestEven.self c).mono (nearestEven_roundDivInt c Nat.one_pos) (by simp)
        omega
      rw [value, hcoeff, rescale, heq, Nat.sub_self, pow10_zero, hone]

/-- What is at most one half of the last place that there can be is rounded to zero. -/
theorem rounds_zero (h : |q| ≤ 1 / 2 / pow10 maxScale) : Rounds q zero := by
  refine ⟨⟨0, maxScale, by decide, Nat.le_refl _⟩, ⟨?_, .inr ?_⟩, ?_⟩
  · rw [le_div_iff₀ (pow10_cast_pos _)] at h
    have habs : |q * pow10 maxScale - ((0 : ℤ) : ℚ)| = |q| * pow10 maxScale := by
      rw [Int.cast_zero, sub_zero, abs_mul, abs_of_pos (pow10_cast_pos _)]
    show |q * pow10 maxScale - ((0 : ℤ) : ℚ)| ≤ 1 / 2 ∧ (_ → _)
    rw [habs]
    exact ⟨h, fun _ => Even.zero⟩
  · exact fun k hlt hle => absurd hle (Nat.not_le.mpr hlt)
  · rw [value_zero, value_eq_zero rfl]

theorem mul?_rounds {a b : Decimal} (h : a.mul? b = some d) : Rounds (a.value * b.value) d := by
  rcases mul?_cases h with ⟨rfl, hsmall⟩ | hfit
  · exact rounds_zero hsmall.le
  · rw [value_mul]
    exact ⟨d, fit_fits hfit, rfl⟩

theorem add?_rounds {a b : Decimal} (h : a.add? b = some d) : Rounds (a.value + b.value) d := by
  unfold add? at h
  split at h
  · next h0 =>
    cases h
    rw [value_eq_zero h0, zero_add]
    exact rounds_self _
  · split at h
    · next h0 =>
      cases h
      rw [value_eq_zero h0, add_zero]
      exact rounds_self _
    · rw [value_add (Nat.le_max_left _ _) (Nat.le_max_right _ _)]
      exact ⟨d, fit_fits h, rfl⟩

theorem sub?_rounds {a b : Decimal} (h : a.sub? b = some d) : Rounds (a.value - b.value) d := by
  rw [sub_eq_add_neg, ← value_neg]
  exact add?_rounds h

/-! ## Order -/

theorem value_le_div (d : Decimal) {k : ℕ} (h : k ≤ d.scale) : d.value ≤ maxCoeff / pow10 k := by
  have hk : (pow10 k : ℚ) ≤ pow10 d.scale := by exact_mod_cast pow10_mono h
  have hcoeff : (d.coeff : ℚ) ≤ maxCoeff := by
    have hle := d.coeff_le
    have hint : d.coeff ≤ (maxCoeff : ℤ) := by omega
    exact_mod_cast hint
  calc d.value ≤ maxCoeff / pow10 d.scale :=
        div_le_div_of_nonneg_right hcoeff (pow10_cast_pos _).le
    _ ≤ maxCoeff / pow10 k :=
        div_le_div_of_nonneg_left (Nat.cast_nonneg _) (pow10_cast_pos k) hk

theorem Fits.mono_of_nonneg (h : Fits q d) (h' : Fits q' d') (h0 : 0 ≤ q) (hq : q ≤ q') :
    d.value ≤ d'.value := by
  have hmul {k : ℕ} : q * pow10 k ≤ q' * pow10 k :=
    mul_le_mul_of_nonneg_right hq (pow10_cast_pos k).le
  -- At equal scales the order is that of the coefficients. At different ones, the decimal with
  -- fewer places is either exact or has as many places as are in range.
  have hsame (hs : d.scale = d'.scale) : d.value ≤ d'.value := by
    have hle : d.coeff ≤ d'.coeff := h.nearest.mono h'.nearest (hs ▸ hmul)
    rw [value, value, hs]
    exact div_le_div_of_nonneg_right (by exact_mod_cast hle) (pow10_cast_pos _).le
  rcases Nat.lt_trichotomy d.scale d'.scale with hlt | heq | hgt
  · rcases h.widest with hexact | hout
    · -- The smaller one is a decimal already, and an integer at the places of the larger one.
      rw [le_value_iff, value_mul_pow10_of_le hlt.le]
      have hint := (NearestEven.self (d.coeff * pow10 (d'.scale - d.scale))).mono h'.nearest (by
        rw [← value_mul_pow10_of_le hlt.le, hexact]
        exact hmul)
      exact_mod_cast hint
    -- With as many places as the larger one has, the smaller one would be out of range, and so then
    -- would be the larger one.
    · have hpos : 0 ≤ q * pow10 d'.scale := mul_nonneg h0 (pow10_cast_pos _).le
      have hin := not_outOfRange_of_nearest h'.nearest d'.coeff_le
      refine absurd ((hout _ hlt d'.scale_le).mono ?_) hin
      rw [abs_of_nonneg hpos, abs_of_nonneg (hpos.trans hmul)]
      exact hmul
  · exact hsame heq
  · rcases h'.widest with hexact | hout
    · rw [value_le_iff, value_mul_pow10_of_le hgt.le]
      have hint := h.nearest.mono (.self (d'.coeff * pow10 (d.scale - d'.scale))) (by
        rw [← value_mul_pow10_of_le hgt.le, hexact]
        exact hmul)
      exact_mod_cast hint
    · -- One more place and the larger one would be out of range.
      have hten : (pow10 (d'.scale + 1) : ℚ) = pow10 d'.scale * 10 := by
        rw [pow10_succ]
        push_cast
        ring
      have hover := hout (d'.scale + 1) (Nat.lt_succ_self _) (hgt.trans_le d.scale_le)
      rw [hten, ← mul_assoc] at hover
      have hcoeff := le_of_outOfRange_mul_ten h'.nearest
        (mul_nonneg (h0.trans hq) (pow10_cast_pos _).le) hover
      calc d.value ≤ maxCoeff / pow10 (d'.scale + 1) := d.value_le_div hgt
        _ ≤ (d'.coeff * 10 : ℚ) / pow10 (d'.scale + 1) := by
            refine div_le_div_of_nonneg_right ?_ (pow10_cast_pos _).le
            exact_mod_cast hcoeff
        _ = d'.value := by
            rw [hten, value, mul_div_mul_right _ _ (by norm_num)]

theorem Fits.neg (h : Fits q d) : Fits (-q) d.neg where
  nearest := by
    rw [neg_mul]
    exact h.nearest.neg
  widest := by
    refine h.widest.imp (fun hexact => by rw [value_neg, hexact]) fun hout k hd hk => ?_
    exact (hout k hd hk).mono (by rw [neg_mul, abs_neg])

theorem Fits.nonneg (h : Fits q d) (h0 : 0 ≤ q) : 0 ≤ d.value := by
  have hzero := zero.fits_self
  rw [value_zero] at hzero
  have hle := hzero.mono_of_nonneg h (Std.le_refl 0) h0
  rwa [value_zero] at hle

/-- **Rounding keeps the order.** -/
theorem Fits.mono (h : Fits q d) (h' : Fits q' d') (hq : q ≤ q') : d.value ≤ d'.value := by
  rcases le_total 0 q with h0 | h0
  · exact h.mono_of_nonneg h' h0 hq
  · have hd := h.neg.nonneg (by linarith)
    rw [value_neg] at hd
    rcases le_total 0 q' with h0' | h0'
    · exact (by linarith : d.value ≤ 0).trans (h'.nonneg h0')
    · have hle := h'.neg.mono_of_nonneg h.neg (by linarith) (by linarith)
      rw [value_neg, value_neg] at hle
      linarith

theorem Rounds.mono (h : Rounds q d) (h' : Rounds q' d') (hq : q ≤ q') : d.value ≤ d'.value := by
  obtain ⟨e, he, hv⟩ := h
  obtain ⟨e', he', hv'⟩ := h'
  rw [← hv, ← hv']
  exact he.mono he' hq

/-- A decimal that is not above a number is not above what the number is rounded to. -/
theorem Rounds.le_of_le (h : Rounds q d) (he : e.value ≤ q) : e.value ≤ d.value :=
  e.rounds_self.mono h he

theorem Rounds.nonneg (h : Rounds q d) (h0 : 0 ≤ q) : 0 ≤ d.value := by
  have hle := h.le_of_le (e := zero) (value_zero ▸ h0)
  rwa [value_zero] at hle

theorem Rounds.ge_of_ge (h : Rounds q d) (he : q ≤ e.value) : d.value ≤ e.value :=
  h.mono e.rounds_self he

/-- **A number that is a decimal is not changed.** -/
theorem Rounds.value_eq (h : Rounds e.value d) : d.value = e.value :=
  le_antisymm (h.ge_of_ge (Std.le_refl _)) (h.le_of_le (Std.le_refl _))

end Decimal

end TradingBot
