import TradingBot.Engine.Basic
import TradingBot.Proofs.DecimalRounding
import TradingBot.Proofs.DecimalText

/-!
# How amounts are shown

**Rounded numbers** (`IsRounded`). The multiple of the last place that is nearest to a number, the
even one of two. There is one, and rounding keeps the order.

**Normal decimals** (`Decimal.IsNormal`). Decimals without a zero at the end of the fraction. Two of
them with the same value are equal (`Decimal.IsNormal.eq`), so their value settles their text.

**Theorem (`Decimal.amounts_shown`).** The text of an amount reads as the amount rounded to eight
places. It is in plain notation without a digit too many, it is the same for exactly the amounts
that are rounded alike, and it keeps the order. So an alert about a balance that is too low never
shows it above its threshold.
-/

namespace TradingBot

/-! ## Rounded numbers -/

/-- The number with so many places that is nearest to another one; a half goes to the even one. -/
def IsRounded (places : ℕ) (q v : ℚ) : Prop :=
  ∃ n : ℤ, NearestEven (q * pow10 places) n ∧ v = n / pow10 places

namespace IsRounded

open Decimal (pow10_cast_pos)

variable {places : ℕ} {q q' v v' : ℚ}

theorem mono (h : IsRounded places q v) (h' : IsRounded places q' v') (hq : q ≤ q') : v ≤ v' := by
  obtain ⟨n, hn, rfl⟩ := h
  obtain ⟨n', hn', rfl⟩ := h'
  have hle : n ≤ n' := hn.mono hn' (mul_le_mul_of_nonneg_right hq (pow10_cast_pos _).le)
  exact div_le_div_of_nonneg_right (by exact_mod_cast hle) (pow10_cast_pos _).le

theorem unique (h : IsRounded places q v) (h' : IsRounded places q v') : v = v' :=
  le_antisymm (h.mono h' le_rfl) (h'.mono h le_rfl)

theorem again (h : IsRounded places q v) : IsRounded places v v := by
  obtain ⟨n, -, rfl⟩ := h
  refine ⟨n, ?_, rfl⟩
  rw [div_mul_cancel₀ _ (pow10_cast_pos _).ne']
  exact .self n

end IsRounded

namespace Decimal

variable {d e : Decimal}

theorem isRounded_value {places : ℕ} (h : d.scale ≤ places) :
    IsRounded places d.value d.value := by
  refine ⟨d.coeff * pow10 (places - d.scale), ?_, value_eq_div h⟩
  rw [value_mul_pow10_of_le h]
  exact .self _

/-- **Fewer places** are made by rounding once. -/
theorem isRounded_roundTo (d : Decimal) {places : ℕ} (h : places ≤ maxScale) :
    IsRounded places d.value (d.roundTo places).value := by
  unfold roundTo
  by_cases hs : places < d.scale
  · have hround := nearestEven_roundDivInt d.coeff (pow10_pos (d.scale - places))
    refine ⟨roundDivInt .toEven d.coeff (pow10 (d.scale - places)), ?_, ?_⟩
    · rwa [value, div_pow10_mul hs.le]
    · rw [if_pos hs, value]
      dsimp only
      rw [Nat.min_eq_left h]
      rfl
  · rw [if_neg hs]
    exact isRounded_value (Nat.not_lt.mp hs)

theorem scale_roundTo_le (d : Decimal) (places : ℕ) : (d.roundTo places).scale ≤ places := by
  unfold roundTo
  split
  · exact Nat.min_le_left _ _
  · next h => exact Nat.not_lt.mp h

/-! ## Normal decimals -/

/-- The fraction does not end in a zero. -/
def IsNormal (d : Decimal) : Prop := d.scale = 0 ∨ ¬ (10 : ℤ) ∣ d.coeff

theorem value_dropZeros (c : ℤ) (s : ℕ) :
    ((dropZeros c s).1 : ℚ) / pow10 (dropZeros c s).2 = c / pow10 s := by
  induction s generalizing c with
  | zero => rfl
  | succ s ih =>
    unfold dropZeros
    split
    · next h =>
      have hc : (c : ℚ) = (c / 10 : ℤ) * 10 := by
        have hmul : c / 10 * 10 = c := Int.ediv_mul_cancel (Int.dvd_of_emod_eq_zero h)
        exact_mod_cast hmul.symm
      have hs : (pow10 (s + 1) : ℚ) = pow10 s * 10 := by
        rw [pow10_succ]
        push_cast
        ring
      rw [ih, hc, hs, mul_div_mul_right _ _ (by norm_num)]
    · rfl

theorem value_normalize (d : Decimal) : d.normalize.value = d.value :=
  value_dropZeros d.coeff d.scale

theorem isNormal_normalize (d : Decimal) : d.normalize.IsNormal := by
  have hdrop (c : ℤ) (s : ℕ) : (dropZeros c s).2 = 0 ∨ ¬ (10 : ℤ) ∣ (dropZeros c s).1 := by
    induction s generalizing c with
    | zero => exact .inl rfl
    | succ s ih =>
      unfold dropZeros
      split
      · exact ih _
      · next h => exact .inr fun hdvd => h (Int.emod_eq_zero_of_dvd hdvd)
  exact hdrop d.coeff d.scale

/-- A normal decimal has the fewest places that its value can be written with. -/
theorem IsNormal.scale_le (h : e.IsNormal) (hv : d.value = e.value) : e.scale ≤ d.scale := by
  by_contra hlt
  have hlt : d.scale < e.scale := Nat.not_le.mp hlt
  have hcoeff : e.coeff = d.coeff * pow10 (e.scale - d.scale) := by
    have hq := value_mul_pow10_of_le hlt.le
    rw [hv, value_mul_pow10] at hq
    exact_mod_cast hq
  obtain ⟨k, hk⟩ := Nat.exists_eq_add_of_lt hlt
  have hten : e.scale - d.scale = k + 1 := by omega
  rcases h with h | h
  · omega
  · rw [hcoeff, hten, pow10_succ, Nat.cast_mul, ← mul_assoc] at h
    exact h (dvd_mul_left _ _)

/-- **Normal decimals are equal** if their values are. -/
theorem IsNormal.eq (h : d.IsNormal) (h' : e.IsNormal) (hv : d.value = e.value) : d = e := by
  have hs : d.scale = e.scale := le_antisymm (h.scale_le hv.symm) (h'.scale_le hv)
  have hc : d.coeff = e.coeff := by
    have hq : (d.coeff : ℚ) = e.coeff := by
      rw [← value_mul_pow10, ← value_mul_pow10, hv, hs]
    exact_mod_cast hq
  obtain ⟨c, s, _, _⟩ := d
  obtain ⟨c', s', _, _⟩ := e
  cases hs
  cases hc
  rfl

/-! ## Plain notation -/

/-- The text writes a number without a sign, a point or a zero too many: a minus sign in front of a
negative number, digits, and behind a point the digits of the fraction, if there is one. -/
structure Plain (places : ℕ) (v : ℚ) (s : String) : Prop where
  parts : ∃ whole fraction : List Char,
    s.toList = (if v < 0 then ['-'] else []) ++ whole ++
      (if fraction = [] then [] else '.' :: fraction) ∧
    whole ≠ [] ∧ (∀ c ∈ whole ++ fraction, c.isDigit = true) ∧ fraction.length ≤ places ∧
    fraction.getLast? ≠ some '0'

theorem value_lt_zero_iff : d.value < 0 ↔ d.coeff < 0 := by
  rw [← lt_zero, lt_iff_value_lt, value_zero]

theorem dvd_of_digits {ds : List Char} (h : d.digits = ds ++ ['0']) : (10 : ℤ) ∣ d.coeff := by
  have hdigits := d.ofDigitChars_digits
  rw [h, Nat.ofDigitChars_append, Nat.ofDigitChars_cons, Nat.ofDigitChars_nil] at hdigits
  rw [← Int.dvd_natAbs, ← hdigits]
  exact_mod_cast Dvd.intro _ rfl

theorem IsNormal.getLast?_fractionDigits (h : d.IsNormal) :
    d.fractionDigits.getLast? ≠ some '0' := by
  intro hlast
  obtain ⟨ds, hds⟩ := List.getLast?_eq_some_iff.mp hlast
  rcases h with h | h
  · have hlen := d.length_fractionDigits
    rw [hds, h, List.length_append, List.length_singleton] at hlen
    omega
  · have hdigits : d.digits = (d.wholeDigits ++ ds) ++ ['0'] := by
      rw [List.append_assoc, ← hds, wholeDigits_append]
    exact h (dvd_of_digits hdigits)

theorem IsNormal.plain_render {places : ℕ} (h : d.IsNormal) (hs : d.scale ≤ places) :
    Plain places d.value d.render := by
  refine ⟨d.wholeDigits, d.fractionDigits, ?_, d.wholeDigits_ne_nil, fun c hc => ?_,
    d.length_fractionDigits.le.trans hs, h.getLast?_fractionDigits⟩
  · have hempty : d.fractionDigits = [] ↔ d.scale = 0 := by
      rw [← List.length_eq_zero_iff, length_fractionDigits]
    rw [toList_render, unsigned, List.append_assoc]
    simp only [value_lt_zero_iff, hempty]
  · rw [wholeDigits_append] at hc
    exact isDigit_of_mem_digits hc

/-! ## Amounts -/

/-- The decimal that an amount is shown as. -/
def shown (d : Decimal) : Decimal := (d.roundTo amountPlaces).normalize

theorem amount_eq (d : Decimal) : d.amount = d.shown.render := rfl

theorem parse_amount (d : Decimal) : parse d.amount = some d.shown := d.shown.parse_render

theorem isNormal_shown (d : Decimal) : d.shown.IsNormal := isNormal_normalize _

theorem isRounded_shown (d : Decimal) : IsRounded amountPlaces d.value d.shown.value := by
  rw [shown, value_normalize]
  exact d.isRounded_roundTo (by decide)

theorem scale_shown_le (d : Decimal) : d.shown.scale ≤ amountPlaces :=
  (dropZeros_scale_le _ _).trans (d.scale_roundTo_le _)

theorem amount_eq_iff {a b : Decimal} : a.amount = b.amount ↔ a.shown.value = b.shown.value := by
  constructor
  · intro h
    have hread := congrArg parse h
    rw [parse_amount, parse_amount] at hread
    rw [Option.some.inj hread]
  · intro h
    rw [amount_eq, amount_eq, a.isNormal_shown.eq b.isNormal_shown h]

/-- The decimals are the same number once they are rounded to the places of an amount. -/
def RoundAlike (a b : Decimal) : Prop :=
  ∀ v, IsRounded amountPlaces a.value v ↔ IsRounded amountPlaces b.value v

theorem roundAlike_iff {a b : Decimal} : RoundAlike a b ↔ a.shown.value = b.shown.value := by
  constructor
  · exact fun h => ((h _).mp a.isRounded_shown).unique b.isRounded_shown
  · intro h v
    constructor
    · intro hv
      rw [hv.unique a.isRounded_shown, h]
      exact b.isRounded_shown
    · intro hv
      rw [hv.unique b.isRounded_shown, ← h]
      exact a.isRounded_shown

/-- The text shows an amount as it should. -/
structure Shows (d : Decimal) (s : String) : Prop where
  /-- It reads as the amount rounded to eight places, which it writes in plain notation. -/
  reads : ∃ e, parse s = some e ∧ IsRounded amountPlaces d.value e.value ∧
    Plain amountPlaces e.value s
  /-- What is read from it is shown the same. -/
  again : ∀ e, parse s = some e → e.amount = s
  /-- Exactly the amounts that are rounded alike are shown the same, -/
  alike : ∀ d' : Decimal, d'.amount = s ↔ RoundAlike d' d
  /-- in particular those of one value, whatever their scales. -/
  sameValue : ∀ d' : Decimal, d'.SameValue d → d'.amount = s
  /-- No larger amount is shown as a smaller one. -/
  mono : ∀ d' e e' : Decimal, d ≤ d' → parse s = some e → parse d'.amount = some e' → e ≤ e'

theorem shows_amount (d : Decimal) : Shows d d.amount where
  reads :=
    ⟨d.shown, d.parse_amount, d.isRounded_shown, d.isNormal_shown.plain_render d.scale_shown_le⟩
  -- Reading the text back gives the rounding, and rounding that again is idle.
  again e he := by
    rw [parse_amount] at he
    cases he
    rw [amount_eq_iff]
    exact d.shown.isRounded_shown.unique d.isRounded_shown.again
  alike d' := amount_eq_iff.trans roundAlike_iff.symm
  sameValue d' h := by
    have hvalue : d'.value = d.value := sameValue_iff_value_eq.mp h
    rw [amount_eq_iff]
    exact (hvalue ▸ d'.isRounded_shown).unique d.isRounded_shown
  mono d' e e' h he he' := by
    rw [parse_amount] at he he'
    cases he
    cases he'
    rw [le_iff_value_le] at h ⊢
    exact d.isRounded_shown.mono d'.isRounded_shown h

end Decimal

/-! ## Alerts about a balance -/

/-- A balance is found too low only if it is below its threshold. -/
theorem BalanceCheck.lt_of_emergencyStop {currency currency' : String}
    {threshold threshold' balance : Decimal} {r : Except Fault Balances}
    (h : judge currency threshold r = .fatal (.emergencyStop currency' balance threshold')) :
    balance < threshold' := by
  match r with
  | .ok b =>
    simp only [judge, compare] at h
    split at h
    · cases h
    · split at h
      · next hlt =>
        cases h
        exact hlt
      · cases h
  | .error (.error (.network _)) | .error (.error (.api _)) | .error (.crash _) => cases h

/-- The alert names two amounts, the first of which is not above the second one. -/
def Fatal.NamesInOrder (f : Fatal) : Prop :=
  ∃ (currency shownBalance shownThreshold : String) (balance threshold : Decimal),
    f.body =
      s!"EMERGENCY STOP triggered! - Current Emergency Stop Currency [{currency}] wallet balance " ++
        s!"[{shownBalance}] on exchange is lower than configured Emergency Stop balance " ++
        s!"[{shownThreshold}]" ∧
    Decimal.parse shownBalance = some balance ∧ Decimal.parse shownThreshold = some threshold ∧
    balance ≤ threshold

/-- **Amounts are shown as they should be**, and no alert shows a balance that is too low above its
threshold. -/
theorem Decimal.amounts_shown :
    (∀ d : Decimal, d.Shows d.amount) ∧
    ∀ (currency currency' : String) (threshold threshold' balance : Decimal)
      (r : Except Fault Balances),
      BalanceCheck.judge currency threshold r =
        .fatal (.emergencyStop currency' balance threshold') →
      (Fatal.emergencyStop currency' balance threshold').NamesInOrder := by
  refine ⟨shows_amount, fun currency currency' threshold threshold' balance r h => ?_⟩
  have hle : balance ≤ threshold' := by
    have hlt := lt_iff_value_lt.mp (BalanceCheck.lt_of_emergencyStop h)
    exact le_iff_value_le.mpr hlt.le
  have hshown : balance.shown ≤ threshold'.shown :=
    balance.shows_amount.mono threshold' _ _ hle balance.parse_amount threshold'.parse_amount
  exact ⟨currency', balance.amount, threshold'.amount, _, _, rfl, balance.parse_amount,
    threshold'.parse_amount, hshown⟩

/-! ## A rehearsed alert -/

namespace Rehearsed

/-- Less than one, by less than an amount shows. -/
def almostOne : Decimal := { coeff := 999999999, scale := 9 }

/-- The balance is below the threshold, and both are shown as one. -/
theorem amounts_rehearsed :
    BalanceCheck.judge "BTC" .one (.ok { available := .ofList [("BTC", almostOne)] }) =
        .fatal (.emergencyStop "BTC" almostOne .one) ∧
      (Fatal.emergencyStop "BTC" almostOne .one).NamesInOrder ∧
      almostOne.Shows "1" ∧ Decimal.one.Shows "1" := by
  have hjudge : BalanceCheck.judge "BTC" .one (.ok { available := .ofList [("BTC", almostOne)] }) =
      .fatal (.emergencyStop "BTC" almostOne .one) := by decide +kernel
  have htext : almostOne.amount = "1" := by decide +kernel
  have htext' : Decimal.one.amount = "1" := by decide +kernel
  obtain ⟨hshows, hnames⟩ := Decimal.amounts_shown
  exact ⟨hjudge, hnames _ _ _ _ _ _ hjudge, htext ▸ hshows almostOne, htext' ▸ hshows .one⟩

end Rehearsed

end TradingBot
