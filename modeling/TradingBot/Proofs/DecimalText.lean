import TradingBot.Decimal.Text

/-!
# Decimal text reads back

**Reading digits** (`Decimal.Reading.read_append`). Digits that fit are read off one after another:
they lengthen the number that was read, and behind the point they count as places.

**Theorem (`Decimal.parse_render`).** The text of a decimal is read as that very decimal, the zeros
at the end of its fraction included. The whole coefficient fits, so does each number on the way to
it, and the reading is never cut.
-/

namespace TradingBot.Decimal

/-! ## Written digits -/

theorem isDigit_of_mem_digits {d : Decimal} {c : Char} (h : c ∈ d.digits) : c.isDigit = true := by
  rcases List.mem_append.mp h with h | h
  · rw [List.eq_of_mem_replicate h]
    decide
  · exact Nat.isDigit_of_mem_toDigits (by decide) (by decide) h

/-- The digits say the coefficient: zeros in front do not count. -/
theorem ofDigitChars_digits (d : Decimal) : Nat.ofDigitChars 10 d.digits 0 = d.coeff.natAbs := by
  rw [digits, Nat.ofDigitChars_append, Nat.ofDigitChars_replicate_zero, Nat.mul_zero,
    Nat.ofDigitChars_ten_toDigits]

theorem scale_lt_length_digits (d : Decimal) : d.scale < d.digits.length := by
  rw [digits, List.length_append, List.length_replicate]
  omega

/-! ## Reading digits -/

theorem le_ofDigitChars (ds : List Char) (n : Nat) : n ≤ Nat.ofDigitChars 10 ds n := by
  induction ds generalizing n with
  | nil => exact Nat.le_refl n
  | cons c ds ih =>
    rw [Nat.ofDigitChars_cons]
    exact Nat.le_trans (by omega) (ih _)

namespace Reading

/-- The reading after some more digits. -/
def after (r : Reading) (ds : List Char) : Reading where
  coeff := Nat.ofDigitChars 10 ds r.coeff
  places := if r.point then r.places + ds.length else r.places
  point := r.point
  started := r.started || !ds.isEmpty

/-- Places are counted behind the point only. -/
def Sound (r : Reading) : Prop := r.point = false → r.places = 0

theorem Sound.after {r : Reading} (h : r.Sound) (ds : List Char) : (r.after ds).Sound := by
  intro hp
  have hp : r.point = false := hp
  simpa [Reading.after, hp] using h hp

theorem after_after (r : Reading) (ds ds' : List Char) :
    (r.after ds).after ds' = r.after (ds ++ ds') := by
  unfold after
  rw [Nat.ofDigitChars_append]
  cases r.point <;> cases ds <;> simp [Nat.add_assoc, Nat.add_comm 1]

theorem read_digit {r : Reading} {c : Char} {cs : List Char} (hr : r.Sound) (hc : c.isDigit = true)
    (hfit : (r.after [c]).coeff ≤ maxCoeff) (hplaces : (r.after [c]).places ≤ maxScale) :
    r.read (c :: cs) = (r.after [c]).read cs := by
  have hnext : r.coeff * 10 + (c.toNat - '0'.toNat) = (r.after [c]).coeff := by
    rw [Nat.mul_comm]
    rfl
  rw [read, hnext, if_pos hc, if_pos hfit]
  cases hp : r.point with
  | false => simp [after, hp, hr hp]
  | true =>
    have hlt : ¬ maxScale ≤ r.places := by
      simp only [after, hp, if_true, List.length_singleton] at hplaces
      omega
    simp [after, hp, hlt]

/-- **Digits that fit are read off**, and what was read goes on with the rest. -/
theorem read_append {ds : List Char} (hds : ∀ c ∈ ds, c.isDigit = true) {r : Reading}
    (hr : r.Sound) (hfit : (r.after ds).coeff ≤ maxCoeff)
    (hplaces : (r.after ds).places ≤ maxScale) (rest : List Char) :
    r.read (ds ++ rest) = (r.after ds).read rest := by
  induction ds generalizing r with
  | nil => simp [after, Nat.ofDigitChars_nil]
  | cons c ds ih =>
    have hsplit : r.after (c :: ds) = (r.after [c]).after ds := by rw [after_after]; rfl
    rw [hsplit] at hfit hplaces ⊢
    have hone : (r.after [c]).coeff ≤ maxCoeff := Nat.le_trans (le_ofDigitChars ds _) hfit
    have hplace : (r.after [c]).places ≤ maxScale := by
      refine Nat.le_trans ?_ hplaces
      cases hp : r.point <;> simp [after, hp]
    rw [List.cons_append, read_digit hr (hds c List.mem_cons_self) hone hplace]
    exact ih (fun c hc => hds c (List.mem_cons_of_mem _ hc)) (hr.after [c]) hfit hplaces

theorem read_point {r : Reading} {cs : List Char} (hp : r.point = false) :
    r.read ('.' :: cs) = Reading.read { r with point := true } cs := by
  rw [read]
  simp [hp]

end Reading

/-! ## Reading what was written -/

theorem splitSign_of_isDigit {c : Char} (h : c.isDigit = true) (cs : List Char) :
    splitSign (c :: cs) = (false, c :: cs) := by
  unfold splitSign
  split
  · next heq => cases heq; exact absurd h (by decide)
  · next heq => cases heq; exact absurd h (by decide)
  · rfl

def wholeDigits (d : Decimal) : List Char := d.digits.take (d.digits.length - d.scale)

def fractionDigits (d : Decimal) : List Char := d.digits.drop (d.digits.length - d.scale)

theorem wholeDigits_append (d : Decimal) : d.wholeDigits ++ d.fractionDigits = d.digits :=
  List.take_append_drop _ _

theorem length_fractionDigits (d : Decimal) : d.fractionDigits.length = d.scale := by
  have := d.scale_lt_length_digits
  rw [fractionDigits, List.length_drop]
  omega

theorem wholeDigits_ne_nil (d : Decimal) : d.wholeDigits ≠ [] := by
  intro h
  have happ := d.wholeDigits_append
  have hlen := d.scale_lt_length_digits
  rw [h, List.nil_append] at happ
  rw [← happ, length_fractionDigits] at hlen
  exact Nat.lt_irrefl _ hlen

def unsigned (d : Decimal) : List Char :=
  d.wholeDigits ++ (if d.scale = 0 then [] else '.' :: d.fractionDigits)

theorem toList_render (d : Decimal) :
    d.render.toList = (if d.coeff < 0 then ['-'] else []) ++ d.unsigned := by
  simp [render, unsigned, wholeDigits, fractionDigits]

theorem read_unsigned (d : Decimal) :
    Reading.read {} d.unsigned = some (d.coeff.natAbs, d.scale) := by
  have hdigits := d.wholeDigits_append
  have hwhole : ∀ c ∈ d.wholeDigits, c.isDigit = true := fun c hc =>
    isDigit_of_mem_digits (hdigits ▸ List.mem_append_left _ hc)
  have hfraction : ∀ c ∈ d.fractionDigits, c.isDigit = true := fun c hc =>
    isDigit_of_mem_digits (hdigits ▸ List.mem_append_right _ hc)
  have hcoeff : Nat.ofDigitChars 10 d.fractionDigits (Nat.ofDigitChars 10 d.wholeDigits 0) =
      d.coeff.natAbs := by
    rw [← Nat.ofDigitChars_append, hdigits, ofDigitChars_digits]
  have hfit : (Reading.after {} d.wholeDigits).coeff ≤ maxCoeff :=
    Nat.le_trans (le_ofDigitChars d.fractionDigits _) (hcoeff ▸ d.coeff_le)
  rw [unsigned, Reading.read_append hwhole (fun _ => rfl) hfit (Nat.zero_le _)]
  by_cases hs : d.scale = 0
  · have hnil : d.fractionDigits = [] :=
      List.length_eq_zero_iff.mp (d.length_fractionDigits.trans hs)
    rw [hnil, Nat.ofDigitChars_nil] at hcoeff
    simp [hs, Reading.after, Reading.read, Reading.done, d.wholeDigits_ne_nil, hcoeff]
  · rw [if_neg hs, Reading.read_point rfl, ← List.append_nil d.fractionDigits,
      Reading.read_append hfraction (fun h => Bool.noConfusion h)]
    · simp [Reading.after, Reading.read, Reading.done, d.wholeDigits_ne_nil, hcoeff,
        d.length_fractionDigits]
    · exact Nat.le_trans (Nat.le_of_eq hcoeff) d.coeff_le
    · simpa [Reading.after, d.length_fractionDigits] using d.scale_le

/-- What is read as the sign is what was written as one: behind it stands a digit. -/
theorem splitSign_render (d : Decimal) :
    splitSign d.render.toList = (decide (d.coeff < 0), d.unsigned) := by
  rw [toList_render]
  by_cases hneg : d.coeff < 0
  · simp [hneg, splitSign]
  · obtain ⟨c, cs, hc⟩ := List.exists_cons_of_ne_nil d.wholeDigits_ne_nil
    have hdigit : c.isDigit = true := by
      refine isDigit_of_mem_digits (d := d) ?_
      rw [← wholeDigits_append, hc]
      exact List.mem_cons_self
    rw [if_neg hneg, List.nil_append, unsigned, hc, List.cons_append, splitSign_of_isDigit hdigit]
    simp [hneg]

/-- **A decimal is read back from its text**, with its scale. -/
@[simp] theorem parse_render (d : Decimal) : parse d.render = some d := by
  have hsign : (if decide (d.coeff < 0) = true then -(d.coeff.natAbs : Int) else d.coeff.natAbs) =
      d.coeff := by
    by_cases hneg : d.coeff < 0
    · rw [if_pos (by simpa using hneg)]
      omega
    · rw [if_neg (by simpa using hneg)]
      omega
  have hplain : parsePlain d.render.toList = some d := by
    rw [parsePlain, splitSign_render]
    dsimp only
    rw [read_unsigned]
    exact make?_eq_some.mpr ⟨hsign.symm, rfl⟩
  rw [parse, hplain]

end TradingBot.Decimal
