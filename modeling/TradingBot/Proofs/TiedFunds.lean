import TradingBot.Proofs.Placing

/-!
# What an accepted order ties up

An order is accepted if its price and its quantity are positive. Its total is their product, and a
market holds the sum of the totals of its orders; where digits run out, both are rounded.

**Too small a product** (`Decimal.Rounds.pos_iff`). A total is positive exactly if the product is
more than one half of the last place that there can be. Otherwise it is zero, and the order rests
without tying up anything.

**Too large a sum** (`Decimal.Absorbs`). A sum that is large enough has no room for the places of a
small amount. What is added to it then leaves no trace (`Decimal.value_lt_add_iff`).

**Theorem (`Paper.place_tiesUp`).** These are the only two ways in which an accepted order ties up
no funds. Both occur (`Rehearsed.accepted_orders_tie_up_nothing`).
-/

namespace TradingBot

namespace Decimal

variable {q : ℚ} {s t d d' e : Decimal}

/-! ## Products that vanish -/

theorem Rounds.value_unique (h : Rounds q d) (h' : Rounds q d') : d.value = d'.value :=
  le_antisymm (h.mono h' (Std.le_refl q)) (h'.mono h (Std.le_refl q))

theorem value_pos_iff : 0 < d.value ↔ 0 < d.coeff := by
  rw [← value_zero, ← lt_iff_value_lt, zero_lt]

/-- What is more than one half of the last place that there can be is not rounded to zero. -/
theorem Fits.pos_of_lt (h : Fits q d) (hq : 1 / 2 / pow10 maxScale < q) : 0 < d.value := by
  have h0 : 0 < q := lt_trans (div_pos (by norm_num) (pow10_cast_pos _)) hq
  rcases h.widest with hexact | hout
  · rwa [hexact]
  · rw [value_pos_iff]
    rcases d.scale_le.lt_or_eq with hlt | heq
    · -- One more place and the number would be out of range, so the coefficient is large.
      have hover := hout (d.scale + 1) (Nat.lt_succ_self _) hlt
      have hten : (pow10 (d.scale + 1) : ℚ) = pow10 d.scale * 10 := by
        rw [pow10_succ]
        push_cast
        ring
      rw [hten, ← mul_assoc] at hover
      have hcoeff := le_of_outOfRange_mul_ten h.nearest
        (mul_nonneg h0.le (pow10_cast_pos _).le) hover
      have hmax : (0 : ℤ) < maxCoeff := by decide
      omega
    · rw [div_lt_iff₀ (pow10_cast_pos _), ← heq] at hq
      have hnear := (abs_le.mp h.nearest.1).2
      have hcoeff : (0 : ℚ) < d.coeff := by linarith
      exact_mod_cast hcoeff

/-- **When a number is rounded to zero**: exactly if it is at most one half of the last place that
there can be. -/
theorem Rounds.pos_iff (h : Rounds q d) (h0 : 0 ≤ q) :
    0 < d.value ↔ 1 / 2 / pow10 maxScale < q := by
  constructor
  · intro hd
    by_contra hq
    have hle : |q| ≤ 1 / 2 / pow10 maxScale := (abs_of_nonneg h0).trans_le (le_of_not_gt hq)
    have hzero := h.value_unique (rounds_zero hle)
    rw [value_zero] at hzero
    exact hd.ne' hzero
  · intro hq
    obtain ⟨e, he, hv⟩ := h
    rw [← hv]
    exact he.pos_of_lt hq

/-! ## Amounts that are lost in a sum -/

/-- The amount `t` is lost when it is added to `s`: with as many places as there can be for the
larger sum, `s` is still the decimal `e`, and `t` is less than one half of its last place, or just
one half while the last digit of `e` is even. -/
def Absorbs (s t : Decimal) : Prop :=
  ∃ e : Decimal, e.value = s.value ∧
    (∀ places, e.scale < places → places ≤ maxScale →
      OutOfRange ((s.value + t.value) * pow10 places)) ∧
    (t.value * pow10 e.scale < 1 / 2 ∨ t.value * pow10 e.scale = 1 / 2 ∧ Even e.coeff)

/-- How far a sum is from its first summand, in units of the last place. -/
theorem add_mul_sub_coeff (he : e.value = s.value) :
    (s.value + t.value) * pow10 e.scale - e.coeff = t.value * pow10 e.scale := by
  rw [← he, add_mul, value_mul_pow10, add_sub_cancel_left]

/-- The nearest decimal to a sum is its first summand exactly if the other one is lost. -/
theorem nearestEven_add_iff (he : e.value = s.value) (ht : 0 ≤ t.value) :
    NearestEven ((s.value + t.value) * pow10 e.scale) e.coeff ↔
      t.value * pow10 e.scale < 1 / 2 ∨ t.value * pow10 e.scale = 1 / 2 ∧ Even e.coeff := by
  have h0 : 0 ≤ t.value * pow10 e.scale := mul_nonneg ht (pow10_cast_pos _).le
  rw [NearestEven, add_mul_sub_coeff he, abs_of_nonneg h0]
  constructor
  · rintro ⟨hle, htie⟩
    exact hle.lt_or_eq.imp_right fun heq => ⟨heq, htie heq⟩
  · rintro (hlt | ⟨heq, heven⟩)
    · exact ⟨hlt.le, fun heq => absurd heq hlt.ne⟩
    · exact ⟨heq.le, fun _ => heven⟩

/-- **When a sum grows**: exactly if something is added to it and not lost. -/
theorem value_lt_add_iff (h : s.add t = .ok d) (ht : 0 ≤ t.value) :
    s.value < d.value ↔ 0 < t.value ∧ ¬ s.Absorbs t := by
  have hr := add?_rounds (add_eq_ok.mp h)
  have hle : s.value ≤ d.value := hr.le_of_le (le_add_of_nonneg_right ht)
  constructor
  · refine fun hlt => ⟨ht.lt_of_ne fun hzero => ?_, ?_⟩
    · rw [← hzero, add_zero] at hr
      exact hlt.ne' hr.value_eq
    · rintro ⟨e, he, hout, hhalf⟩
      have hfits : Fits (s.value + t.value) e := ⟨(nearestEven_add_iff he ht).mpr hhalf, .inr hout⟩
      exact hlt.ne' ((hr.value_unique ⟨e, hfits, rfl⟩).trans he)
  · rintro ⟨hpos, hkept⟩
    refine hle.lt_of_ne fun heq => hkept ?_
    obtain ⟨e, hfits, hv⟩ := hr
    have he : e.value = s.value := hv.trans heq.symm
    refine ⟨e, he, hfits.widest.resolve_left fun hexact => ?_,
      (nearestEven_add_iff he ht).mp hfits.nearest⟩
    linarith

/-- More than one half is never lost. -/
theorem not_absorbs_of_half_lt (ht : 1 / 2 < t.value) : ¬ s.Absorbs t := by
  rintro ⟨e, -, -, hhalf⟩
  have hone : (1 : ℚ) ≤ pow10 e.scale := by exact_mod_cast pow10_pos e.scale
  have hle : t.value ≤ t.value * pow10 e.scale := le_mul_of_one_le_right (by linarith) hone
  rcases hhalf with hlt | ⟨heq, -⟩ <;> linarith

end Decimal

def Balances.held (b : Balances) (marketId : String) : Decimal :=
  (b.onHold.get? marketId).getD .zero

namespace Paper

open Decimal (Rounds maxScale)

/-! ## One more order -/

/-- What an order adds to a report. -/
structure Adds (o : OpenOrder) (b b' : Balances) : Prop where
  available : b'.available = b.available
  others : ∀ m, m ≠ o.marketId → b'.onHold.get? m = b.onHold.get? m
  /-- The market holds the rounded sum, which is never less than before. -/
  sum : Rounds ((b.held o.marketId).value + o.total.value) (b'.held o.marketId)
  le : b.held o.marketId ≤ b'.held o.marketId
  /-- It holds more than before unless the total is zero or lost in the sum. -/
  lt_iff : b.held o.marketId < b'.held o.marketId ↔
    .zero < o.total ∧ ¬ (b.held o.marketId).Absorbs o.total
  /-- A total of more than one half is never lost. -/
  lt_of_half_lt : 1 / 2 < o.total.value → b.held o.marketId < b'.held o.marketId
  /-- Nor is any total as long as there is a decimal for the exact sum. -/
  exact : ∀ e : Decimal, e.value = (b.held o.marketId).value + o.total.value →
    (b'.held o.marketId).SameValue e

variable {available : Dict Decimal} {orders : List OpenOrder} {o : OpenOrder} {t : Ticket}
  {w w' : World}

theorem Accounts.of_concat {b' : Balances} (h : Accounts available (orders ++ [o]) b') :
    ∃ b, Accounts available orders b ∧ b'.available = b.available ∧
      (b.held o.marketId).add o.total = .ok (b'.held o.marketId) ∧
      ∀ m, m ≠ o.marketId → b'.onHold.get? m = b.onHold.get? m := by
  obtain ⟨havailable, hheld⟩ := accounts_iff.mp h
  rw [← foldlM_hold_eq_ok_iff, foldlM_hold_concat_eq_ok_iff] at hheld
  obtain ⟨held, total, hheld, ht, hinsert⟩ := hheld
  refine ⟨{ available, onHold := held }, accounts_iff.mpr ⟨rfl, foldlM_hold_eq_ok_iff.mp hheld⟩,
    havailable, ?_, fun m hm => ?_⟩
  · have hafter : b'.held o.marketId = total := by
      rw [Balances.held, hinsert, Dict.get?_insert, if_pos rfl]
      rfl
    rw [hafter]
    exact ht
  · rw [hinsert, Dict.get?_insert, if_neg hm]

theorem adds_of_add {b b' : Balances} (h0 : 0 ≤ o.total.value)
    (havailable : b'.available = b.available)
    (hadd : (b.held o.marketId).add o.total = .ok (b'.held o.marketId))
    (hothers : ∀ m, m ≠ o.marketId → b'.onHold.get? m = b.onHold.get? m) : Adds o b b' where
  available := havailable
  others := hothers
  sum := Decimal.add?_rounds (Decimal.add_eq_ok.mp hadd)
  le := by
    rw [Decimal.le_iff_value_le]
    exact (Decimal.add?_rounds (Decimal.add_eq_ok.mp hadd)).le_of_le (le_add_of_nonneg_right h0)
  lt_iff := by
    rw [Decimal.lt_iff_value_lt, Decimal.lt_iff_value_lt, Decimal.value_zero]
    exact Decimal.value_lt_add_iff hadd h0
  -- More than half of a last place is not rounded away.
  lt_of_half_lt hhalf := by
    rw [Decimal.lt_iff_value_lt, Decimal.value_lt_add_iff hadd h0]
    exact ⟨by linarith, Decimal.not_absorbs_of_half_lt hhalf⟩
  exact e he := by
    have hround := Decimal.add?_rounds (Decimal.add_eq_ok.mp hadd)
    rw [← he] at hround
    exact Decimal.sameValue_iff_value_eq.mpr hround.value_eq

/-! ## What an order ties up -/

/-- What the order of an accepted ticket ties up, from the exchange before it to a later one on
whose books it is the only new one. -/
structure TiesUp (t : Ticket) (o : OpenOrder) (w w' : World) : Prop where
  orders : w'.paper.orders = w.paper.orders ++ [o]
  records : Records t o
  total : Rounds (t.price.value * t.quantity.value) o.total
  nonneg : .zero ≤ o.total
  /-- The total is positive exactly if the product is more than one half of the last place that
  there can be. -/
  pos_iff : .zero < o.total ↔ 1 / 2 / pow10 maxScale < t.price.value * t.quantity.value
  /-- Whenever there is a report with the order, there was one without it. -/
  report : ∀ (now : Timestamp) (b' : Balances), (exchange.balances).Gives now w' b' →
    ∃ b, (exchange.balances).Gives now w b ∧ Adds o b b'

theorem tiesUp_of_orders (ht : Acceptable t) (hr : Records t o)
    (horders : w'.paper.orders = w.paper.orders ++ [o])
    (havailable : w'.paper.available = w.paper.available) : TiesUp t o w w' := by
  have hprice : 0 < t.price.value := by
    rw [Decimal.value_pos_iff, ← Decimal.zero_lt]
    exact ht.2
  have hquantity : 0 < t.quantity.value := by
    rw [Decimal.value_pos_iff, ← Decimal.zero_lt]
    exact ht.1
  have hproduct : 0 ≤ t.price.value * t.quantity.value := (mul_pos hprice hquantity).le
  have hround := Decimal.mul?_rounds (Decimal.mul_eq_ok.mp hr.total)
  have h0 : 0 ≤ o.total.value := hround.nonneg hproduct
  refine ⟨horders, hr, hround, Decimal.zero_le_iff.mpr h0, ?_, fun now b' hb' => ?_⟩
  · rw [Decimal.lt_iff_value_lt, Decimal.value_zero]
    exact hround.pos_iff hproduct
  · rw [gives_balances_iff, horders, havailable] at hb'
    obtain ⟨b, hb, hsame, hadd, hothers⟩ := hb'.of_concat
    exact ⟨b, gives_balances_iff.mpr hb, adds_of_add h0 hsame hadd hothers⟩

theorem tiesUp_of_place {now : Timestamp} {id : String}
    (h : (exchange.place t).run.run now w = (.ok id, w')) : ∃ o, o.id = id ∧ TiesUp t o w w' := by
  have h : (place t).run.run now w = (.ok id, w') := h
  by_cases ht : Acceptable t
  · obtain ⟨r, w₁, hprice⟩ : ∃ r w₁, (price t.marketId).run.run now w = (r, w₁) := ⟨_, _, rfl⟩
    cases r with
    | error f => cases (run_place_of_error ht hprice).symm.trans h
    | ok p =>
      -- Looking up the price leaves the orders and the funds alone.
      obtain ⟨prices, hpaper⟩ := (spared_price now t.marketId w).paper
      rw [hprice] at hpaper
      rw [run_place_of_price ht hprice, run_enter] at h
      cases ho : orderOf t (orderId (w.paper.issued + 1)) now with
      | error c =>
        rw [ho] at h
        cases h
      | ok o =>
        rw [ho] at h
        cases h
        obtain ⟨hid, hr⟩ := of_orderOf ho
        exact ⟨o, hid, tiesUp_of_orders ht hr (by rw [push, hpaper]) (by rw [push, hpaper])⟩
  · cases (run_place_of_refused ht now w).symm.trans h

/-! ## While others act -/

namespace Desk

/-- A call that has just placed its order has put it at the end of the books. -/
theorem Deals.orders_of_placed {d d' : Desk} {a : Act} {deeds : List Deed} {k : Nat} {id : String}
    (hm : Deals d a deeds d') (hnew : d.calls[k]? ≠ some (.placed t (.ok id)))
    (hk : d'.calls[k]? = some (.placed t (.ok id))) :
    ∃ o, o.id = id ∧ Acceptable t ∧ Records t o ∧ d'.orders = d.orders ++ [o] := by
  -- Only entering the books turns a call into one that has placed its order.
  cases hm with
  | @begins _ s _ hs =>
    rcases getElem?_concat.mp hk with hk | ⟨-, rfl⟩
    · exact absurd hk hnew
    · exact absurd (.placed t id) hs
  | relinks | holds => exact absurd hk hnew
  | goesOn hj _ _ hs =>
    rcases (getElem?_set hj).mp hk with ⟨-, rfl⟩ | ⟨-, hk⟩
    · exact absurd (.placed t id) hs
    · exact absurd hk hnew
  | enters hj ho =>
    rcases (getElem?_set hj).mp hk with ⟨-, he⟩ | ⟨-, hk⟩
    · cases he
      obtain ⟨hid, hr⟩ := of_orderOf ho
      exact ⟨_, hid, ‹Acceptable t›, hr, rfl⟩
    · exact absurd hk hnew
  | overflows hj =>
    rcases (getElem?_set hj).mp hk with ⟨-, he⟩ | ⟨-, hk⟩
    · cases he
    · exact absurd hk hnew
  | cancels | lists =>
    rcases getElem?_concat.mp hk with hk | ⟨-, he⟩
    · exact absurd hk hnew
    · cases he

end Desk

/-- **What an accepted order ties up.** Its total is the rounded product of price and quantity,
positive exactly if the product is more than one half of the last place that there can be. The next
report, if there is one, says that the market holds at least as much as before the order, and more
exactly if the total is positive and not lost in the sum. So it is in every state of the exchange,
and for every call among many, as long as the books stay as the call has left them. -/
theorem place_tiesUp (t : Ticket) :
    (∀ (now : Timestamp) (w w' : World) (id : String),
      (exchange.place t).run.run now w = (.ok id, w') → ∃ o, o.id = id ∧ TiesUp t o w w') ∧
    ∀ (c : Config.Exchange) (w : World) (now : Timestamp) (σ : Nat → Act) (n k : Nat) (id : String),
      ((Desk.opened c w now).after σ n).calls[k]? ≠ some (.placed t (.ok id)) →
      ((Desk.opened c w now).after σ (n + 1)).calls[k]? = some (.placed t (.ok id)) →
      ∃ o, o.id = id ∧ ∀ n',
        ((Desk.opened c w now).after σ n').orders = ((Desk.opened c w now).after σ (n + 1)).orders →
        TiesUp t o ((Desk.opened c w now).after σ n).world
          ((Desk.opened c w now).after σ n').world := by
  refine ⟨fun now w w' id => tiesUp_of_place, fun c w now σ n k id hnew hk => ?_⟩
  obtain ⟨o, hid, ht, hr, horders⟩ := (Desk.deals_after c w now σ n).orders_of_placed hnew hk
  refine ⟨o, hid, fun n' hsame => tiesUp_of_orders ht hr (hsame.trans horders) ?_⟩
  rw [Desk.available_after, Desk.available_after]

end Paper

/-! ## Rehearsed orders -/

namespace Rehearsed

open Paper

/-- The books of the shop after orders have been placed there one after another. -/
def ordered (tickets : List Ticket) : World :=
  tickets.foldl (fun w t => ((exchange.place t).run.run dawn w).2) (Desk.opened shop {} dawn).world

/-- A bid for one at 990 ties up funds, and so does an ask at a busy desk. -/
theorem tiesUp_rehearsed :
    ((exchange.place bid).run.run dawn (ordered [])).1 = .ok (orderId 1) ∧
    (∃ o b b', TiesUp bid o (ordered []) (ordered [bid]) ∧ .zero < o.total ∧
      (exchange.balances).Gives dawn (ordered []) b ∧
      (exchange.balances).Gives dawn (ordered [bid]) b' ∧ b.held "btcusd" < b'.held "btcusd") ∧
    ∃ o, o.id = "sold" ∧ TiesUp ask o ((Desk.opened shop {} dawn).after bustling 4).world
      ((Desk.opened shop {} dawn).after bustling 5).world := by
  have hok : ((exchange.place bid).run.run dawn (ordered [])).1 = .ok (orderId 1) := by
    decide +kernel
  refine ⟨hok, ?_, ?_⟩
  · obtain ⟨o, -, ho⟩ := (place_tiesUp bid).1 dawn (ordered []) (ordered [bid]) (orderId 1)
      (Prod.ext hok rfl)
    have hmul : bid.price.mul bid.quantity = .ok (.ofNat 990) := by decide
    have htotal : o.total = .ofNat 990 := Except.ok.inj (ho.records.total.symm.trans hmul)
    have hafter : (exchange.balances).Gives dawn (ordered [bid])
        { onHold := .ofList [("btcusd", .ofNat 990)] } := by
      show (_ : Except Fault Balances) = _
      decide +kernel
    obtain ⟨b, hbefore, hadds⟩ := ho.report dawn _ hafter
    have hlt := hadds.lt_of_half_lt (by norm_num [htotal, Decimal.value, Decimal.ofNat, pow10])
    rw [ho.records.market] at hlt
    exact ⟨o, b, _, ho, by rw [htotal]; decide, hbefore, hafter, hlt⟩
  · have hnew : ((Desk.opened shop {} dawn).after bustling 4).calls[1]? ≠
        some (.placed ask (.ok "sold")) := by
      intro h
      cases h
    obtain ⟨o, hid, ho⟩ := (place_tiesUp ask).2 shop {} dawn bustling 4 1 "sold" hnew rfl
    exact ⟨o, hid, ho 5 rfl⟩

def bidFor (quantity price : Decimal) : Ticket :=
  { marketId := "btcusd", side := .buy, quantity, price }

/-- Two ways to tie up nothing. The total of a crumb is less than any decimal: its order is accepted
at a total of zero. A hoard has no room for the tenths of another amount: the order for a tenth is
accepted at a positive total. Neither makes the market hold more than before. -/
theorem accepted_orders_tie_up_nothing :
    let crumb := bidFor { coeff := 1, scale := 14 } { coeff := 1, scale := 15 }
    let hoard := bidFor (.ofNat 10000000000000000000000000000) .one
    let tenth := bidFor { coeff := 1, scale := 1 } .one
    (((exchange.place crumb).run.run dawn (ordered [])).1 = .ok (orderId 1) ∧
      (ordered [crumb]).paper.orders.map (·.total) = [{ coeff := 0, scale := 28 }] ∧
      ∃ b b', (exchange.balances).Gives dawn (ordered []) b ∧
        (exchange.balances).Gives dawn (ordered [crumb]) b' ∧
        ¬ b.held "btcusd" < b'.held "btcusd") ∧
    ((exchange.place tenth).run.run dawn (ordered [hoard])).1 = .ok (orderId 2) ∧
      ∃ b b', (exchange.balances).Gives dawn (ordered [hoard]) b ∧
        (exchange.balances).Gives dawn (ordered [hoard, tenth]) b' ∧
        ¬ b.held "btcusd" < b'.held "btcusd" := by
  refine ⟨⟨by decide +kernel, by decide +kernel, {},
      { onHold := .ofList [("btcusd", { coeff := 0, scale := 28 })] }, ?_, ?_, by decide +kernel⟩,
    by decide +kernel,
      { onHold := .ofList [("btcusd", .ofNat 10000000000000000000000000000)] },
      { onHold := .ofList [("btcusd", .ofNat 10000000000000000000000000000)] }, ?_, ?_,
      by decide +kernel⟩
  all_goals
    show (_ : Except Fault Balances) = _
    decide +kernel

end Rehearsed

end TradingBot
