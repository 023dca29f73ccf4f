import TradingBot.Proofs.Quotes

/-!
# Books around negative prices

**Opposites** (`Decimal.mul?_neg`, `Decimal.add?_neg`). Amounts are rounded alike on both sides of
zero: the opposites of two amounts have the opposite sum, and a product changes its sign with one
factor.

**Mirror images** (`Paper.bookAround_neg`). So the book around the opposite of a price is the mirror
image of the book around the price: each level is at the opposite price, and on the same side.

**Theorem (`Paper.upsideDown_of_bookAround`).** A book around a negative price is upside down. It
sells below the price and buys above it, and each side gets worse from the best level on.
-/

namespace TradingBot

/-! ## Opposite amounts -/

namespace Decimal

variable {a b : Decimal}

@[simp] theorem neg_neg (d : Decimal) : d.neg.neg = d := by
  simp [neg]

@[simp] theorem neg_zero : zero.neg = zero := rfl

theorem opposite_le_iff : a.neg ≤ b.neg ↔ b ≤ a := by
  rw [le_iff_value_le, le_iff_value_le, value_neg, value_neg, neg_le_neg_iff]

theorem rescale_neg (tie : Tie) (c : ℤ) (s places : ℕ) :
    rescale tie (-c) s places = -rescale tie c s places :=
  roundDivInt_neg tie c _

theorem make?_neg (c : ℤ) (s : ℕ) : make? (-c) s = (make? c s).map neg := by
  unfold make?
  by_cases h : c.natAbs ≤ maxCoeff ∧ s ≤ maxScale
  · have h' : (-c).natAbs ≤ maxCoeff ∧ s ≤ maxScale := by rwa [Int.natAbs_neg]
    rw [dif_pos h, dif_pos h']
    rfl
  · have h' : ¬ ((-c).natAbs ≤ maxCoeff ∧ s ≤ maxScale) := by rwa [Int.natAbs_neg]
    rw [dif_neg h, dif_neg h']
    rfl

theorem fitFrom_neg (c : ℤ) (s places : ℕ) :
    fitFrom (-c) s places = (fitFrom c s places).map neg := by
  induction places with
  | zero => rw [fitFrom, fitFrom, rescale_neg, make?_neg]
  | succ places ih =>
    rw [fitFrom, fitFrom, rescale_neg, make?_neg, ih]
    cases make? (rescale .toEven c s (places + 1)) (places + 1) <;> rfl

theorem fit_neg (c : ℤ) (s : ℕ) : fit (-c) s = (fit c s).map neg := fitFrom_neg c s _

theorem mul?_comm (a b : Decimal) : a.mul? b = b.mul? a := by
  unfold mul?
  simp only [or_comm (a := a.coeff = 0), and_left_comm (a := a.coeff.natAbs < smallCoeff),
    Int.mul_comm a.coeff, Nat.add_comm a.scale]

theorem mul?_neg (a b : Decimal) : a.mul? b.neg = (a.mul? b).map neg := by
  have hcoeff : b.neg.coeff = -b.coeff := rfl
  have hscale : b.neg.scale = b.scale := rfl
  unfold mul?
  simp only [hcoeff, hscale, Int.neg_eq_zero, Int.natAbs_neg]
  split
  · rfl
  · split
    · rfl
    · rw [Int.mul_neg, fit_neg]

theorem neg_mul? (a b : Decimal) : a.neg.mul? b = (a.mul? b).map neg := by
  rw [mul?_comm, mul?_neg, mul?_comm]

theorem add?_neg (a b : Decimal) : a.neg.add? b.neg = (a.add? b).map neg := by
  have hcoeff (d : Decimal) : d.neg.coeff = -d.coeff := rfl
  have hscale (d : Decimal) : d.neg.scale = d.scale := rfl
  unfold add?
  simp only [hcoeff, hscale, Int.neg_eq_zero]
  split
  · rfl
  · split
    · rfl
    · rw [Int.neg_mul, Int.neg_mul, ← Int.neg_add, fit_neg]

theorem sub?_neg (a b : Decimal) : a.neg.sub? b.neg = (a.sub? b).map neg := add?_neg a b.neg

theorem mul_neg {a b d : Decimal} (h : a.mul b = .ok d) : a.mul b.neg = .ok d.neg := by
  rw [mul_eq_ok] at h ⊢
  rw [mul?_neg, h]
  rfl

theorem neg_mul {a b d : Decimal} (h : a.mul b = .ok d) : a.neg.mul b = .ok d.neg := by
  rw [mul_eq_ok] at h ⊢
  rw [neg_mul?, h]
  rfl

theorem add_neg {a b d : Decimal} (h : a.add b = .ok d) : a.neg.add b.neg = .ok d.neg := by
  rw [add_eq_ok] at h ⊢
  rw [add?_neg, h]
  rfl

theorem sub_neg {a b d : Decimal} (h : a.sub b = .ok d) : a.neg.sub b.neg = .ok d.neg := by
  rw [sub_eq_ok] at h ⊢
  rw [sub?_neg, h]
  rfl

end Decimal

/-! ## Mirror images -/

/-- The level at the opposite price. -/
def Level.mirror (l : Level) : Level := { l with price := l.price.neg, total := l.total.neg }

/-- The book with each level at the opposite price. -/
def OrderBook.mirror (b : OrderBook) : OrderBook :=
  { b with sells := b.sells.map Level.mirror, buys := b.buys.map Level.mirror }

namespace Paper

variable {marketId : String} {price number : Decimal} {b : OrderBook}

theorem levelDistance_neg {distance : Decimal} (h : levelDistance price number = .ok distance) :
    levelDistance price.neg number = .ok distance.neg := by
  obtain ⟨share, hs, h⟩ := bind_eq_ok_iff.mp h
  exact bind_eq_ok_iff.mpr ⟨share, hs, Decimal.mul_neg h⟩

theorem level_neg {side : Side} {l : Level} (h : Level.of side price .one = .ok l) :
    Level.of side price.neg .one = .ok l.mirror := by
  obtain ⟨total, ht, h⟩ := bind_eq_ok_iff.mp h
  cases h
  exact bind_eq_ok_iff.mpr ⟨total.neg, Decimal.neg_mul ht, rfl⟩

theorem sellLevel_neg {l : Level} (h : sellLevel price number = .ok l) :
    sellLevel price.neg number = .ok l.mirror := by
  obtain ⟨distance, hd, h⟩ := bind_eq_ok_iff.mp h
  obtain ⟨ask, ha, h⟩ := bind_eq_ok_iff.mp h
  refine bind_eq_ok_iff.mpr ⟨_, levelDistance_neg hd, ?_⟩
  exact bind_eq_ok_iff.mpr ⟨_, Decimal.add_neg ha, level_neg h⟩

theorem buyLevel_neg {l : Level} (h : buyLevel price number = .ok l) :
    buyLevel price.neg number = .ok l.mirror := by
  obtain ⟨distance, hd, h⟩ := bind_eq_ok_iff.mp h
  obtain ⟨bid, hb, h⟩ := bind_eq_ok_iff.mp h
  refine bind_eq_ok_iff.mpr ⟨_, levelDistance_neg hd, ?_⟩
  exact bind_eq_ok_iff.mpr ⟨_, Decimal.sub_neg hb, level_neg h⟩

theorem mapM_mirror {f g : Decimal → Except Crash Level} {numbers : List Decimal}
    {levels : List Level} (hfg : ∀ n l, f n = .ok l → g n = .ok l.mirror)
    (h : numbers.mapM f = .ok levels) : numbers.mapM g = .ok (levels.map Level.mirror) := by
  induction numbers generalizing levels with
  | nil =>
    cases h
    rfl
  | cons n numbers ih =>
    rw [List.mapM_cons] at h ⊢
    obtain ⟨l, hl, h⟩ := bind_eq_ok_iff.mp h
    obtain ⟨ls, hls, h⟩ := bind_eq_ok_iff.mp h
    cases h
    exact bind_eq_ok_iff.mpr ⟨_, hfg n l hl, bind_eq_ok_iff.mpr ⟨_, ih hls, rfl⟩⟩

/-- **The book around the opposite of a price** is the mirror image of the book around the price. -/
theorem bookAround_neg (h : bookAround marketId price = .ok b) :
    bookAround marketId price.neg = .ok b.mirror := by
  obtain ⟨sells, hs, h⟩ := bind_eq_ok_iff.mp h
  obtain ⟨buys, hb, h⟩ := bind_eq_ok_iff.mp h
  cases h
  refine bind_eq_ok_iff.mpr ⟨_, mapM_mirror (fun _ _ => sellLevel_neg) hs, ?_⟩
  exact bind_eq_ok_iff.mpr ⟨_, mapM_mirror (fun _ _ => buyLevel_neg) hb, rfl⟩

end Paper

/-! ## Books upside down -/

/-- A book on whose sides the best level is the worst one, and which sells below the price and buys
above it. -/
structure OrderBook.UpsideDown (price : Decimal) (b : OrderBook) : Prop where
  /-- Sell prices never increase. -/
  sells : b.sells.Pairwise fun l l' => l'.price ≤ l.price
  /-- Buy prices never decrease. -/
  buys : b.buys.Pairwise fun l l' => l.price ≤ l'.price
  asks : ∀ l ∈ b.sells, l.price ≤ price
  bids : ∀ l ∈ b.buys, price ≤ l.price ∧ l.price ≤ .zero
  /-- The price lies between the best ones. -/
  best : ∃ bid ask, b.bestBid = some bid ∧ b.bestAsk = some ask ∧ ask ≤ price ∧ price ≤ bid

theorem OrderBook.Orderly.mirror {price : Decimal} {b : OrderBook} (h : b.Orderly price) :
    b.mirror.UpsideDown price.neg where
  sells := List.pairwise_map.mpr (h.sells.imp Decimal.opposite_le_iff.mpr)
  buys := List.pairwise_map.mpr (h.buys.imp Decimal.opposite_le_iff.mpr)
  asks l hl := by
    obtain ⟨l, hask, rfl⟩ := List.mem_map.mp hl
    exact Decimal.opposite_le_iff.mpr (h.asks l hask)
  bids l hl := by
    obtain ⟨l, hbid, rfl⟩ := List.mem_map.mp hl
    obtain ⟨h0, hle⟩ := h.bids l hbid
    exact ⟨Decimal.opposite_le_iff.mpr hle, Decimal.neg_zero ▸ Decimal.opposite_le_iff.mpr h0⟩
  best := by
    -- A mirrored book has the same first levels, with the other sign.
    obtain ⟨bid, ask, -, hbid, hask, hle, hle', -⟩ := h.spread
    refine ⟨bid.neg, ask.neg, ?_, ?_, Decimal.opposite_le_iff.mpr hle',
      Decimal.opposite_le_iff.mpr hle⟩
    · unfold bestBid at hbid ⊢
      obtain ⟨l, hl, rfl⟩ := Option.map_eq_some_iff.mp hbid
      rw [OrderBook.mirror, List.head?_map, hl]
      rfl
    · unfold bestAsk at hask ⊢
      obtain ⟨l, hl, rfl⟩ := Option.map_eq_some_iff.mp hask
      rw [OrderBook.mirror, List.head?_map, hl]
      rfl

/-- **A book around a negative price is upside down.** -/
theorem Paper.upsideDown_of_bookAround {marketId : String} {price : Decimal} {b : OrderBook}
    (h0 : price < .zero) (h : bookAround marketId price = .ok b) : b.UpsideDown price := by
  have hpos : .zero ≤ price.neg := by
    rw [← Decimal.neg_zero, Decimal.opposite_le_iff]
    exact Decimal.le_iff_value_le.mpr (Decimal.lt_iff_value_lt.mp h0).le
  have hmirror := (orderly_of_bookAround hpos (bookAround_neg h)).mirror
  have hback : b.mirror.mirror = b := by
    simp [OrderBook.mirror, Level.mirror, Function.comp_def]
  rwa [hback, Decimal.neg_neg] at hmirror

end TradingBot
