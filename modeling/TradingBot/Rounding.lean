/-!
# Powers of ten and rounded quotients

**The powers** (`pow2`, `pow10`). What a binary or a decimal place is worth, as natural numbers.

**The rule** (`roundDiv`). `roundDiv tie n d` is the natural number nearest to `n / d`; a
quotient that lies half-way goes where `tie` says. On integers (`roundDivInt`) the sign is
put aside and put back, so both ties are symmetric about zero.

**Bound.** Rounding to the nearest never leaves the dividend's range (`roundDiv_le`), which is
why dropping digits of a bounded coefficient keeps the bound.
-/

namespace TradingBot

/-! ## Powers -/

def pow2 (n : Nat) : Nat := Nat.pow 2 n

def pow10 (n : Nat) : Nat := Nat.pow 10 n

@[simp] theorem pow10_zero : pow10 0 = 1 := rfl

theorem pow10_succ (n : Nat) : pow10 (n + 1) = pow10 n * 10 := rfl

theorem pow10_pos (n : Nat) : 0 < pow10 n := by
  induction n with
  | zero => exact Nat.one_pos
  | succ n ih => rw [pow10_succ]; omega

theorem pow10_add (m n : Nat) : pow10 (m + n) = pow10 m * pow10 n := by
  induction n with
  | zero => simp
  | succ n ih => rw [← Nat.add_assoc, pow10_succ, pow10_succ, ih, Nat.mul_assoc]

/-! ## Rounded quotients -/

/-- Where a quotient goes that lies half-way between two integers. -/
inductive Tie where
  /-- To the even one of the two. -/
  | toEven
  /-- To the larger one in magnitude. -/
  | away
deriving DecidableEq, Repr

/-- The natural number nearest to `n / d`. -/
def roundDiv (tie : Tie) (n d : Nat) : Nat :=
  let q := n / d
  let r := n % d
  if 2 * r < d then q
  else if d < 2 * r then q + 1
  else
    match tie with
    | .toEven => q + q % 2
    | .away => q + 1

/-- The integer nearest to `n / d`, by magnitude. -/
def roundDivInt (tie : Tie) (n : Int) (d : Nat) : Int :=
  n.sign * roundDiv tie n.natAbs d

theorem roundDiv_eq_or (tie : Tie) (n d : Nat) :
    roundDiv tie n d = n / d ∨ (roundDiv tie n d = n / d + 1 ∧ d ≤ 2 * (n % d)) := by
  unfold roundDiv
  dsimp only
  split
  · exact .inl rfl
  · split
    · exact .inr ⟨rfl, by omega⟩
    · cases tie with
      | toEven => dsimp only; rcases Nat.mod_two_eq_zero_or_one (n / d) with h | h <;> omega
      | away => exact .inr ⟨rfl, by omega⟩

theorem roundDiv_le (tie : Tie) (n : Nat) {d : Nat} (hd : 0 < d) : roundDiv tie n d ≤ n := by
  have hdiv : d * (n / d) + n % d = n := Nat.div_add_mod n d
  have hle : n / d ≤ d * (n / d) := Nat.le_mul_of_pos_left _ hd
  rcases roundDiv_eq_or tie n d with h | ⟨h, hr⟩
  · rw [h]; exact Nat.div_le_self n d
  · rw [h]; omega

theorem natAbs_roundDivInt_le (tie : Tie) (n : Int) {d : Nat} (hd : 0 < d) :
    (roundDivInt tie n d).natAbs ≤ n.natAbs := by
  unfold roundDivInt
  rw [Int.natAbs_mul, Int.natAbs_natCast]
  have h := roundDiv_le tie n.natAbs hd
  have hs : n.sign.natAbs ≤ 1 := by
    rcases Int.lt_trichotomy n 0 with h | h | h
    · simp [Int.sign_eq_neg_one_of_neg h]
    · simp [h]
    · simp [Int.sign_eq_one_of_pos h]
  calc n.sign.natAbs * roundDiv tie n.natAbs d
      ≤ 1 * roundDiv tie n.natAbs d := Nat.mul_le_mul_right _ hs
    _ ≤ n.natAbs := by omega

end TradingBot
