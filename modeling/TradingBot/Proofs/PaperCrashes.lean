import TradingBot.Proofs.DecimalRange
import TradingBot.Proofs.OpenOrders

/-!
# Where the paper exchange crashes

**Calls that crash** (`Call.Crashes`). A call crashes if its first part does, or if what follows it
does with the first part's value.

**Overflows.** An exchange that keeps to its interface answers every call or fails it with an error.
The paper exchange does not: three of its computations overflow where the amounts are large enough,
the asks of a book (`Paper.AsksOverflow`), the total of an order, and the sum of what the open
orders of a market hold (`Paper.HoldOverflows`). The bids of a book never do.

**Theorem (`Paper.crashes_iff`).** In every state these overflows are the only crashes, and a call
that comes to one does crash.
-/

namespace TradingBot

/-! ## Computations that crash -/

def Fails {α : Type} (r : Except Crash α) : Prop := ∃ crash, r = .error crash

section

variable {α β : Type}

theorem fails_bind_iff {r : Except Crash α} {f : α → Except Crash β} :
    Fails (r >>= f) ↔ Fails r ∨ ∃ a, r = .ok a ∧ Fails (f a) := by
  cases r with
  | ok a =>
    show Fails (f a) ↔ _
    simp [Fails]
  | error c => exact iff_of_true ⟨c, rfl⟩ (.inl ⟨c, rfl⟩)

theorem bind_eq_ok_iff {r : Except Crash α} {f : α → Except Crash β} {b : β} :
    (r >>= f) = .ok b ↔ ∃ a, r = .ok a ∧ f a = .ok b := by
  cases r with
  | ok a =>
    show f a = .ok b ↔ _
    simp
  | error c => exact iff_of_false nofun nofun

theorem not_fails_pure (a : α) : ¬ Fails (pure a) := nofun

theorem not_fails_iff {r : Except Crash α} : ¬ Fails r ↔ ∃ a, r = .ok a := by
  cases r with
  | ok a => exact iff_of_true nofun ⟨a, rfl⟩
  | error c => exact iff_of_false (not_not_intro ⟨c, rfl⟩) nofun

theorem fails_mapM_iff {f : α → Except Crash β} {l : List α} :
    Fails (l.mapM f) ↔ ∃ a ∈ l, Fails (f a) := by
  induction l with
  | nil => simp [Fails, pure, Except.pure]
  | cons a l ih =>
    rw [List.mapM_cons, fails_bind_iff]
    simp only [fails_bind_iff, ih, List.mem_cons, exists_eq_or_imp]
    by_cases h : Fails (f a)
    · simp [h]
    · obtain ⟨b, hb⟩ := not_fails_iff.mp h
      simp [hb, not_fails_pure]

theorem exists_of_mapM_error {f : α → Except Crash β} {l : List α} {crash : Crash}
    (h : l.mapM f = .error crash) : ∃ a ∈ l, f a = .error crash := by
  induction l with
  | nil => cases h
  | cons a l ih =>
    rw [List.mapM_cons] at h
    cases ha : f a with
    | error c =>
      rw [ha] at h
      cases h
      exact ⟨a, List.mem_cons_self, ha⟩
    -- The first item is fine: the crash is that of a later one.
    | ok b =>
      rw [ha] at h
      cases hl : l.mapM f with
      | error c =>
        have hc : (.error c : Except Crash (List β)) = .error crash := by
          rw [hl] at h
          exact h
        obtain ⟨a', hm, ha'⟩ := ih (hl.trans hc)
        exact ⟨a', List.mem_cons_of_mem a hm, ha'⟩
      | ok bs =>
        rw [hl] at h
        cases h

theorem fails_foldlM_iff {f : β → α → Except Crash β} {l : List α} {b : β} :
    Fails (l.foldlM f b) ↔ ∃ before a behind b', l = before ++ a :: behind ∧
      before.foldlM f b = .ok b' ∧ Fails (f b' a) := by
  induction l generalizing b with
  | nil => simp [Fails, pure, Except.pure]
  | cons a l ih =>
    rw [List.foldlM_cons, fails_bind_iff]
    constructor
    · rintro (h | ⟨b₁, h₁, h⟩)
      · exact ⟨[], a, l, b, rfl, rfl, h⟩
      · obtain ⟨before, a', behind, b', rfl, hb, hf⟩ := ih.mp h
        refine ⟨a :: before, a', behind, b', rfl, ?_, hf⟩
        rw [List.foldlM_cons, h₁]
        exact hb
    · rintro ⟨before, a', behind, b', hl, hb, hf⟩
      cases before with
      | nil =>
        cases hl
        cases hb
        exact .inl hf
      | cons x before =>
        cases hl
        rw [List.foldlM_cons] at hb
        cases hx : f b a with
        | error c =>
          rw [hx] at hb
          cases hb
        | ok b₁ =>
          rw [hx] at hb
          exact .inr ⟨b₁, rfl, ih.mpr ⟨before, a', behind, b', rfl, hb, hf⟩⟩

end

namespace Decimal

theorem fails_orOverflow_iff {operation : String} {r : Option Decimal} :
    Fails (orOverflow operation r) ↔ r = none := by
  cases r with
  | none => exact iff_of_true ⟨_, rfl⟩ rfl
  | some d => exact iff_of_false nofun nofun

theorem fails_mul_iff {a b : Decimal} : Fails (a.mul b) ↔ OutOfRange (a.value * b.value) :=
  fails_orOverflow_iff.trans mul?_eq_none_iff

theorem fails_add_iff {a b : Decimal} : Fails (a.add b) ↔ OutOfRange (a.value + b.value) :=
  fails_orOverflow_iff.trans add?_eq_none_iff

theorem fails_sub_iff {a b : Decimal} : Fails (a.sub b) ↔ OutOfRange (a.value - b.value) :=
  fails_orOverflow_iff.trans sub?_eq_none_iff

theorem value_one : one.value = 1 := by
  norm_num [value, one, ofNat, pow10]

theorem not_fails_mul_one (d : Decimal) : ¬ Fails (d.mul one) := by
  rw [fails_mul_iff, value_one, mul_one]
  exact d.not_outOfRange

end Decimal

/-! ## Calls that crash -/

namespace Call

variable {ω σ α β : Type} {now : Timestamp} {w : ω}

/-- The call, carried to its end at one point in time, crashes. -/
def Crashes (c : Call ω α) (now : Timestamp) (w : ω) : Prop :=
  ∃ crash, (c.run.run now w).1 = .error (.crash crash)

/-- The call ends with this value. -/
def Gives (c : Call ω α) (now : Timestamp) (w : ω) (a : α) : Prop := (c.run.run now w).1 = .ok a

theorem run_bind (c : Call ω α) (k : α → Call ω β) (now : Timestamp) (w : ω) :
    (c >>= k).run.run now w =
      match c.run.run now w with
      | (.ok a, w') => (k a).run.run now w'
      | (.error f, w') => (.error f, w') := by
  show (c.run >>= fun r => (ExceptT.bindCont k r)).run now w = _
  rw [Program.run_bind]
  match c.run.run now w with
  | (.ok a, w') => rfl
  | (.error f, w') => rfl

theorem crashes_bind_iff {c : Call ω α} {k : α → Call ω β} :
    (c >>= k).Crashes now w ↔
      c.Crashes now w ∨ ∃ a, c.Gives now w a ∧ (k a).Crashes now (c.run.run now w).2 := by
  unfold Crashes Gives
  rw [run_bind]
  match c.run.run now w with
  | (.ok a, w') => simp
  | (.error f, w') => simp

theorem gives_bind_iff {c : Call ω α} {k : α → Call ω β} {b : β} :
    (c >>= k).Gives now w b ↔
      ∃ a, c.Gives now w a ∧ (k a).Gives now (c.run.run now w).2 b := by
  unfold Gives
  rw [run_bind]
  match c.run.run now w with
  | (.ok a, w') => simp
  | (.error f, w') => simp

theorem Gives.unique {c : Call ω α} {a a' : α} (h : c.Gives now w a) (h' : c.Gives now w a') :
    a = a' := Except.ok.inj (h.symm.trans h')

theorem not_crashes_pure (a : α) : ¬ (pure a : Call ω α).Crashes now w := nofun

theorem not_crashes_lift (p : Program ω α) : ¬ (lift p).Crashes now w := by
  rintro ⟨crash, h⟩
  have hrun : (lift p).run.run now w = (.ok (p.run now w).1, (p.run now w).2) :=
    Program.run_bind now p _ w
  rw [hrun] at h
  cases h

theorem not_crashes_ofExcept (r : Except ApiError α) :
    ¬ (ofExcept r : Call ω α).Crashes now w := by
  cases r <;> exact nofun

theorem crashes_compute_iff {r : Except Crash α} :
    (compute r : Call ω α).Crashes now w ↔ Fails r := by
  cases r with
  | ok a => exact iff_of_false nofun nofun
  | error c => exact iff_of_true ⟨c, rfl⟩ ⟨c, rfl⟩

theorem gives_compute_iff {r : Except Crash α} {a : α} :
    (compute r : Call ω α).Gives now w a ↔ r = .ok a := by
  cases r with
  | ok b =>
    show Except.ok b = Except.ok a ↔ _
    simp
  | error c => exact iff_of_false nofun nofun

theorem run_compute (r : Except Crash α) (now : Timestamp) (w : ω) :
    (compute r : Call ω α).run.run now w = (r.mapError .crash, w) := by
  cases r <;> rfl

theorem crashes_zoom_iff {slot : Program.Slot ω σ} {c : Call σ α} :
    (c.zoom slot).Crashes now w ↔ c.Crashes now (slot.get w) := by
  have hrun : (c.zoom slot).run.run now w =
      ((c.run.run now (slot.get w)).1, slot.set (c.run.run now (slot.get w)).2 w) :=
    Program.run_zoom slot now c.run w
  rw [Crashes, Crashes, hrun]

theorem crashes_look_iff {p : Program ω α} {k : α → Call ω β} (hp : (p.run now w).2 = w) :
    (lift p >>= k).Crashes now w ↔ (k (p.run now w).1).Crashes now w := by
  have hrun : (lift p).run.run now w = (.ok (p.run now w).1, (p.run now w).2) :=
    Program.run_bind now p _ w
  unfold Crashes
  rw [run_bind, hrun]
  dsimp only
  rw [hp]

end Call

theorem Http.Client.not_crashes_get {α : Type} (c : Client) (path : String)
    (decode : Json → Option α) (now : Timestamp) (l : Link) :
    ¬ (c.get path decode).Crashes now l := by
  rintro ⟨crash, h⟩
  rw [get, ExceptT.run_mk] at h
  dsimp only at h
  rw [Program.run_bind, Program.run_bind] at h
  generalize ((Link.send (c.address path) .get c.timeout).run now _) = sent at h
  split at h
  · cases h
  · split at h
    · cases h
    · split at h <;> cases h

/-! ## The calls of the paper exchange -/

namespace Paper

open Call

variable {α : Type} {now : Timestamp} {w : World}

theorem run_look (k : Paper → Call World α) :
    (Call.lift look >>= k).run.run now w = (k w.paper).run.run now w := rfl

theorem crashes_look {k : Paper → Call World α} :
    (Call.lift look >>= k).Crashes now w ↔ (k w.paper).Crashes now w := crashes_look_iff rfl

theorem not_crashes_price (marketId : String) : ¬ (price marketId).Crashes now w := by
  rw [price, crashes_look]
  split
  · rw [crashes_bind_iff, crashes_zoom_iff, not_or]
    refine ⟨Http.Client.not_crashes_get _ _ _ _ _, ?_⟩
    rintro ⟨last, -, h⟩
    rcases crashes_bind_iff.mp h with h | ⟨-, -, h⟩
    · exact not_crashes_lift _ h
    · exact not_crashes_pure _ h
  · rw [crashes_look]
    exact not_crashes_ofExcept _

theorem crashes_orderBook_iff {marketId : String} :
    (orderBook marketId).Crashes now w ↔
      ∃ p, (price marketId).Gives now w p ∧ Fails (bookAround marketId p) := by
  rw [orderBook, crashes_bind_iff, or_iff_right (not_crashes_price marketId)]
  simp only [crashes_compute_iff]

theorem crashes_ticker_iff {marketId : String} :
    (ticker marketId).Crashes now w ↔ (orderBook marketId).Crashes now w := by
  rw [ticker, crashes_bind_iff, or_iff_left]
  rintro ⟨book, -, h⟩
  rcases crashes_bind_iff.mp h with h | ⟨last, -, h⟩
  · exact not_crashes_price marketId h
  · rcases crashes_bind_iff.mp h with h | ⟨t, -, h⟩
    · exact not_crashes_lift _ h
    · exact not_crashes_pure _ h

theorem crashes_enter_iff {id : String} {t : Ticket} :
    (enter id t).Crashes now w ↔ Fails (t.price.mul t.quantity) := by
  have hiff : Fails (orderOf t id now) ↔ Fails (t.price.mul t.quantity) :=
    exists_congr fun c => orderOf_eq_error_iff
  rw [← hiff, Crashes, run_enter]
  cases orderOf t id now with
  | ok o => exact iff_of_false nofun nofun
  | error c => exact iff_of_true ⟨c, rfl⟩ ⟨c, rfl⟩

theorem crashes_place_iff {t : Ticket} :
    (place t).Crashes now w ↔
      Acceptable t ∧ (∃ p, (price t.marketId).Gives now w p) ∧ Fails (t.price.mul t.quantity) := by
  rw [place_eq]
  split
  · next ht =>
    rw [crashes_bind_iff, or_iff_right (not_crashes_price t.marketId)]
    simp only [crashes_look, crashes_enter_iff, ht, true_and, exists_and_right]
  · next ht => exact iff_of_false nofun fun h => ht h.1

theorem crashes_balances_iff :
    (exchange.balances).Crashes now w ↔ Fails (w.paper.orders.foldlM hold {}) := by
  show (Call.lift look >>= fun p => Call.compute p.balances).Crashes now w ↔ _
  rw [crashes_look, crashes_compute_iff, balances, fails_bind_iff, or_iff_left]
  rintro ⟨held, -, h⟩
  exact not_fails_pure _ h

theorem not_crashes_cancelOrder (id marketId : String) :
    ¬ (cancelOrder id marketId).Crashes now w := by
  rintro ⟨crash, h⟩
  rw [run_cancelOrder] at h
  cases h

theorem not_crashes_look (f : Paper → α) :
    ¬ (do return f (← Call.lift look) : Call World α).Crashes now w := by
  rw [crashes_look]
  exact not_crashes_pure _

/-! ## Books -/

/-- The ask with a number is out of range. -/
def AskOverflows (price number : Decimal) : Prop :=
  ∃ distance, levelDistance price number = .ok distance ∧
    Decimal.OutOfRange (price.value + distance.value)

/-- Some ask of the book around a price is out of range. -/
def AsksOverflow (price : Decimal) : Prop := ∃ number ∈ levelNumbers, AskOverflows price number

theorem value_thousandths {d : Decimal} (hs : d.scale = 3) (h0 : 0 < d.coeff) (h5 : d.coeff ≤ 5) :
    0 < d.value ∧ d.value ≤ 1 / 200 := by
  have hpos : (0 : ℚ) < d.coeff := by exact_mod_cast h0
  have hle : (d.coeff : ℚ) ≤ 5 := by exact_mod_cast h5
  have hpow : (pow10 d.scale : ℚ) = 1000 := by rw [hs]; norm_num [pow10]
  rw [Decimal.value, hpow]
  constructor <;> linarith

/-- A level is up to half a percent of the price away from it. -/
theorem exists_share {number : Decimal} (hn : number ∈ levelNumbers) :
    ∃ share, number.mul bookStep = .ok share ∧ 0 < share.value ∧ share.value ≤ 1 / 200 := by
  have hshare (i : Int) (h : i.natAbs ≤ Decimal.maxCoeff) (h0 : 0 < i) (h5 : i ≤ 5) :=
    value_thousandths (d := ⟨i, 3, h, by decide⟩) rfl h0 h5
  simp only [levelNumbers, List.mem_cons, List.not_mem_nil, or_false] at hn
  rcases hn with rfl | rfl | rfl | rfl | rfl
  · exact ⟨_, rfl, hshare 1 (by decide) (by decide) (by decide)⟩
  · exact ⟨_, rfl, hshare 2 (by decide) (by decide) (by decide)⟩
  · exact ⟨_, rfl, hshare 3 (by decide) (by decide) (by decide)⟩
  · exact ⟨_, rfl, hshare 4 (by decide) (by decide) (by decide)⟩
  · exact ⟨_, rfl, hshare 5 (by decide) (by decide) (by decide)⟩

/-- The distance of a level is at most one half off its share of the price. -/
theorem exists_distance (price : Decimal) {number : Decimal} (hn : number ∈ levelNumbers) :
    ∃ share distance, number.mul bookStep = .ok share ∧ 0 < share.value ∧ share.value ≤ 1 / 200 ∧
      levelDistance price number = .ok distance ∧
      |distance.value - share.value * price.value| ≤ 1 / 2 := by
  obtain ⟨share, hmul, hpos, hle⟩ := exists_share hn
  have hprice := price.abs_value_le
  have hprod : |share.value * price.value| ≤ 1 / 200 * Decimal.maxCoeff := by
    rw [abs_mul, abs_of_pos hpos]
    exact mul_le_mul hle hprice (abs_nonneg _) (by norm_num)
  have hok : ¬ Fails (share.mul price) := by
    rw [Decimal.fails_mul_iff]
    refine Decimal.not_outOfRange_of_lt (hprod.trans_lt ?_)
    have hmax : (0 : ℚ) ≤ Decimal.maxCoeff := Nat.cast_nonneg _
    linarith
  obtain ⟨distance, hd⟩ := not_fails_iff.mp hok
  refine ⟨share, distance, hmul, hpos, hle, ?_, Decimal.mul?_near (Decimal.mul_eq_ok.mp hd)⟩
  rw [levelDistance, hmul]
  exact hd

theorem not_fails_level (side : Side) (price : Decimal) : ¬ Fails (Level.of side price .one) := by
  rw [Level.of, fails_bind_iff, not_or]
  refine ⟨price.not_fails_mul_one, ?_⟩
  rintro ⟨total, -, h⟩
  exact not_fails_pure _ h

theorem fails_sellLevel_iff {price number : Decimal} (hn : number ∈ levelNumbers) :
    Fails (sellLevel price number) ↔ AskOverflows price number := by
  obtain ⟨-, distance, -, -, -, hd, -⟩ := exists_distance price hn
  have hadd : Fails (sellLevel price number) ↔ Fails (price.add distance) := by
    rw [sellLevel, hd]
    show Fails (price.add distance >>= fun p => Level.of .sell p .one) ↔ _
    rw [fails_bind_iff, or_iff_left]
    rintro ⟨p, -, h⟩
    exact not_fails_level _ p h
  rw [hadd, Decimal.fails_add_iff, AskOverflows]
  constructor
  · exact fun h => ⟨distance, hd, h⟩
  · rintro ⟨distance', hd', h⟩
    cases hd.symm.trans hd'
    exact h

/-- A bid is nearer to zero than the price, by more than it can be off. -/
theorem not_fails_buyLevel (price : Decimal) {number : Decimal} (hn : number ∈ levelNumbers) :
    ¬ Fails (buyLevel price number) := by
  obtain ⟨share, distance, -, hpos, hle, hd, hnear⟩ := exists_distance price hn
  have hsub : ¬ Fails (price.sub distance) := by
    rw [Decimal.fails_sub_iff]
    refine Decimal.not_outOfRange_of_lt ?_
    have hprice := price.abs_value_le
    have hmax : (0 : ℚ) < Decimal.maxCoeff := by norm_num [Decimal.maxCoeff]
    -- The bid keeps a whole share away from the end of the range.
    have hrest : (1 - share.value) * |price.value| < Decimal.maxCoeff :=
      calc (1 - share.value) * |price.value|
          ≤ (1 - share.value) * Decimal.maxCoeff :=
            mul_le_mul_of_nonneg_left hprice (by linarith)
        _ = Decimal.maxCoeff - share.value * Decimal.maxCoeff := by ring
        _ < Decimal.maxCoeff := sub_lt_self _ (mul_pos hpos hmax)
    calc |price.value - distance.value|
        = |(1 - share.value) * price.value - (distance.value - share.value * price.value)| := by
          congr 1
          ring
      _ ≤ |(1 - share.value) * price.value| + |distance.value - share.value * price.value| :=
          abs_sub _ _
      _ < Decimal.maxCoeff + 1 / 2 := by
          rw [abs_mul, abs_of_pos (by linarith)]
          linarith
  rw [buyLevel, hd]
  show ¬ Fails (price.sub distance >>= fun p => Level.of .buy p .one)
  rw [fails_bind_iff, not_or]
  refine ⟨hsub, ?_⟩
  rintro ⟨p, -, h⟩
  exact not_fails_level _ p h

/-- **A book fails only for its asks.** -/
theorem fails_bookAround_iff {marketId : String} {price : Decimal} :
    Fails (bookAround marketId price) ↔ AsksOverflow price := by
  rw [bookAround, fails_bind_iff, or_iff_left]
  · rw [fails_mapM_iff, AsksOverflow]
    exact exists_congr fun number => and_congr_right fun hn => fails_sellLevel_iff hn
  · rintro ⟨sells, -, h⟩
    rcases fails_bind_iff.mp h with h | ⟨buys, -, h⟩
    · obtain ⟨number, hn, h⟩ := fails_mapM_iff.mp h
      exact not_fails_buyLevel price hn h
    · exact not_fails_pure _ h

/-- **The crash of a book** is that of the addition which computes an ask. -/
theorem crash_of_bookAround {marketId : String} {price : Decimal} {crash : Crash}
    (h : bookAround marketId price = .error crash) : crash = .text "Addition overflowed" := by
  -- A bid cannot crash, so it is an ask that does.
  have hsells : levelNumbers.mapM (sellLevel price) = .error crash := by
    cases hs : levelNumbers.mapM (sellLevel price) with
    | error c =>
      rw [bookAround, hs] at h
      cases h
      rfl
    | ok sells =>
      cases hb : levelNumbers.mapM (buyLevel price) with
      | error c =>
        obtain ⟨number, hn, hf⟩ := fails_mapM_iff.mp ⟨c, hb⟩
        exact absurd hf (not_fails_buyLevel price hn)
      | ok buys =>
        rw [bookAround, hs, hb] at h
        cases h
  obtain ⟨number, hn, hlevel⟩ := exists_of_mapM_error hsells
  obtain ⟨-, distance, -, -, -, hd, -⟩ := exists_distance price hn
  rw [sellLevel, hd] at hlevel
  have hlevel : (price.add distance >>= fun p => Level.of .sell p .one) = .error crash := hlevel
  cases ha : price.add distance with
  | ok p =>
    rw [ha] at hlevel
    exact absurd ⟨crash, hlevel⟩ (not_fails_level .sell p)
  | error c =>
    rw [ha] at hlevel
    cases hlevel
    -- The text is that of the addition, the one step left.
    unfold Decimal.add Decimal.orOverflow at ha
    split at ha <;> cases ha
    rfl

theorem ask_eq (price share distance : ℚ) :
    price + distance = (1 + share) * price + (distance - share * price) := by ring

/-- No ask is out of range as long as the price and half a percent of it are in range. -/
theorem le_of_asksOverflow {price : Decimal} (h : AsksOverflow price) :
    (Decimal.maxCoeff : ℚ) ≤ 201 / 200 * |price.value| := by
  obtain ⟨number, hn, distance, hd, hout⟩ := h
  obtain ⟨share, distance', -, hpos, hle, hd', hnear⟩ := exists_distance price hn
  cases hd.symm.trans hd'
  have hshare : (1 + share.value) * |price.value| ≤ 201 / 200 * |price.value| :=
    mul_le_mul_of_nonneg_right (by linarith) (abs_nonneg _)
  have hask : |price.value + distance.value| ≤ (1 + share.value) * |price.value| + 1 / 2 := by
    rw [ask_eq price.value share.value]
    refine (abs_add_le _ _).trans (add_le_add ?_ hnear)
    rw [abs_mul, abs_of_pos (by linarith)]
  have hmax : (Decimal.maxCoeff : ℚ) + 1 / 2 ≤ |price.value + distance.value| := hout
  linarith

/-- If they are out of range by more than one, the last ask is. -/
theorem asksOverflow_of_le {price : Decimal}
    (h : (Decimal.maxCoeff + 1 : ℚ) ≤ 201 / 200 * |price.value|) : AsksOverflow price := by
  have hn : Decimal.ofNat 5 ∈ levelNumbers := by simp [levelNumbers]
  obtain ⟨share, distance, hmul, -, -, hd, hnear⟩ := exists_distance price hn
  have hshare : share.value = 1 / 200 := by
    have hlast : (Decimal.ofNat 5).mul bookStep = .ok { coeff := 5, scale := 3 } := rfl
    cases hlast.symm.trans hmul
    norm_num [Decimal.value, pow10]
  refine ⟨_, hn, distance, hd, ?_⟩
  have hask : 201 / 200 * |price.value| - 1 / 2 ≤ |price.value + distance.value| := by
    have hmain : |(1 + share.value) * price.value| = 201 / 200 * |price.value| := by
      rw [hshare, abs_mul]
      norm_num
    rw [ask_eq price.value share.value, ← hmain]
    have htri := abs_sub_abs_le_abs_sub ((1 + share.value) * price.value)
      (-(distance.value - share.value * price.value))
    rw [abs_neg, sub_neg_eq_add] at htri
    linarith
  show (Decimal.maxCoeff : ℚ) + 1 / 2 ≤ |price.value + distance.value|
  linarith

/-! ## What open orders hold -/

/-- The sum of what the orders of a market hold is out of range when some order is added to it. -/
def HoldOverflows (orders : List OpenOrder) : Prop :=
  ∃ before o behind held, orders = before ++ o :: behind ∧ before.foldlM hold {} = .ok held ∧
    Decimal.OutOfRange (((held.get? o.marketId).getD .zero).value + o.total.value)

theorem fails_hold_iff {held : Dict Decimal} {o : OpenOrder} :
    Fails (hold held o) ↔
      Decimal.OutOfRange (((held.get? o.marketId).getD .zero).value + o.total.value) := by
  rw [hold, fails_bind_iff, or_iff_left, Decimal.fails_add_iff]
  rintro ⟨total, -, h⟩
  exact not_fails_pure _ h

theorem fails_holds_iff {orders : List OpenOrder} :
    Fails (orders.foldlM hold {}) ↔ HoldOverflows orders := by
  rw [fails_foldlM_iff, HoldOverflows]
  simp only [fails_hold_iff]

/-! ## All calls -/

/-- Which calls crash in a state, and where. -/
structure CrashesWhere (now : Timestamp) (w : World) : Prop where
  openOrders : ∀ m, ¬ (exchange.openOrders m).Crashes now w
  cancel : ∀ id m, ¬ (exchange.cancel id m).Crashes now w
  price : ∀ m, ¬ (exchange.price m).Crashes now w
  buyFee : ∀ m, ¬ (exchange.buyFee m).Crashes now w
  sellFee : ∀ m, ¬ (exchange.sellFee m).Crashes now w
  /-- An order book: where it learns a price whose asks are out of range. -/
  orderBook : ∀ m, (exchange.orderBook m).Crashes now w ↔
    ∃ p, (exchange.price m).Gives now w p ∧ AsksOverflow p
  /-- A ticker: where the order book does. -/
  ticker : ∀ m, (exchange.ticker m).Crashes now w ↔
    ∃ p, (exchange.price m).Gives now w p ∧ AsksOverflow p
  /-- Placing an order: where nothing else is wrong with it, but its total is out of range. -/
  place : ∀ t, (exchange.place t).Crashes now w ↔
    Acceptable t ∧ (∃ p, (exchange.price t.marketId).Gives now w p) ∧
      Decimal.OutOfRange (t.price.value * t.quantity.value)
  /-- The balances: where the sum of what a market's orders hold is out of range. -/
  balances : (exchange.balances).Crashes now w ↔ HoldOverflows w.paper.orders

/-- **The paper exchange crashes at overflows, and nowhere else.** In every state and for all
arguments: a book or a ticker crashes exactly for a price whose asks are out of range, which are
prices whose size with half a percent added is out of range, up to one unit; an order, exactly for a
total out of range; the balances, exactly if a sum of totals is. All other calls give a value or
fail with an error of the interface. -/
theorem crashes_iff (now : Timestamp) (w : World) :
    CrashesWhere now w ∧
    (∀ p : Decimal, AsksOverflow p → (Decimal.maxCoeff : ℚ) ≤ 201 / 200 * |p.value|) ∧
    (∀ p : Decimal, (Decimal.maxCoeff + 1 : ℚ) ≤ 201 / 200 * |p.value| → AsksOverflow p) := by
  have hbook (m : String) : (exchange.orderBook m).Crashes now w ↔
      ∃ p, (exchange.price m).Gives now w p ∧ AsksOverflow p := by
    show (orderBook m).Crashes now w ↔ _
    rw [crashes_orderBook_iff]
    simp only [fails_bookAround_iff]
    rfl
  refine ⟨?_, fun p => le_of_asksOverflow, fun p => asksOverflow_of_le⟩
  exact {
    openOrders := fun m => not_crashes_look fun p => p.openOrders m
    cancel := not_crashes_cancelOrder
    price := not_crashes_price
    buyFee := fun _ => not_crashes_look buyFee
    sellFee := fun _ => not_crashes_look sellFee
    orderBook := hbook
    ticker := fun m => crashes_ticker_iff.trans (hbook m)
    place := fun t => by
      rw [← Decimal.fails_mul_iff]
      exact crashes_place_iff
    balances := crashes_balances_iff.trans fails_holds_iff }

end Paper

/-! ## A rehearsed flood -/

namespace Rehearsed

open Paper

def crash? : Stage → Option Crash
  | .placed _ (.error (.crash c)) | .answered _ (.error (.crash c)) => some c
  | _ => none

def most : Decimal :=
  { coeff := Decimal.maxCoeff
    scale := 0
    coeff_le := Nat.le_refl Decimal.maxCoeff
    scale_le := Nat.zero_le Decimal.maxScale }

def bidMost (quantity : Decimal) : Ticket :=
  { marketId := "btcusd", side := .buy, quantity, price := most }

/-- The price of a market is set to the largest amount, and a book around it is asked for. Then
eight of the market's currency are ordered at this price, and after that one, twice. -/
def flood : List Act :=
  [.ask (.setPrice "btcusd" most), .goOn 0 dawn, .ask (.orderBook "btcusd"), .goOn 1 dawn,
    .place (bidMost (.ofNat 8)), .goOn 2 dawn, .enter 2 "eight" dawn,
    .place (bidMost .one), .goOn 3 dawn, .enter 3 "one" dawn,
    .place (bidMost .one), .goOn 4 dawn, .enter 4 "another" dawn, .ask .balances, .goOn 5 dawn]

/-- The book, the order of eight and the balances crash. -/
theorem paper_overflows :
    (((Desk.opened shop {} dawn).after (flood.getD · (.relink {})) 15).calls.filterMap crash?) =
      [.text "Addition overflowed", .text "Multiplication overflowed",
        .text "Addition overflowed"] := by
  decide +kernel

end Rehearsed

end TradingBot
