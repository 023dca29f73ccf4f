import Mathlib.Data.List.Induction
import TradingBot.Proofs.DecimalRounding
import TradingBot.Proofs.Records
import TradingBot.Proofs.Requests
import TradingBot.Proofs.Sessions

/-!
# What the paper exchange reports of its balances

**Sums** (`Decimal.sum`). The funds that a market's orders hold are added up order by order, oldest
first. Each addition may round, but none does where a decimal is there for every partial sum
(`Decimal.sum_exact`).

**One pass** (`Paper.foldlM_hold_eq_ok_iff`). The exchange goes once through the orders of all
markets. After any number of them, the map has an entry for each market met so far, and it is the
sum of what was met of that market; this is what an induction from the last order on shows.

**Reports** (`Paper.Accounts`). So a report is a matter of the seeded funds and the open orders. No
call changes the former (`Paper.Desk.setUp_after`), and a withdrawn order is none of the latter.

**Theorem (`Paper.Desk.reports_after`).** All of this, at every moment and in whatever order the
callers take their turns.
-/

namespace TradingBot

/-! ## Sums -/

namespace Decimal

/-- The sum of amounts, rounded after each one. -/
def sum (amounts : List Decimal) : Except Crash Decimal := amounts.foldlM add zero

variable {amounts : List Decimal} {d total : Decimal}

theorem sum_concat_eq_ok_iff :
    sum (amounts ++ [d]) = .ok total ↔ ∃ s, sum amounts = .ok s ∧ s.add d = .ok total := by
  rw [sum, List.foldlM_append, bind_eq_ok_iff]
  refine exists_congr fun s => and_congr_right fun _ => ?_
  rw [List.foldlM_cons, bind_eq_ok_iff]
  constructor
  · rintro ⟨s', hs', h⟩
    cases h
    exact hs'
  · exact fun h => ⟨total, h, rfl⟩

/-- **A sum is exact** if every partial sum is a decimal. -/
theorem sum_exact (h : sum amounts = .ok total)
    (hdecimal : ∀ l, l <+: amounts → ∃ e : Decimal, e.value = (l.map value).sum) :
    total.value = (amounts.map value).sum := by
  induction amounts using List.reverseRecOn generalizing total with
  | nil =>
    cases h
    exact value_zero
  | append_singleton l d ih =>
    obtain ⟨s, hs, hd⟩ := sum_concat_eq_ok_iff.mp h
    have hpartial := ih hs fun l' hl' => hdecimal l' (hl'.trans (List.prefix_append l [d]))
    have hround := add?_rounds (add_eq_ok.mp hd)
    obtain ⟨e, he⟩ := hdecimal _ (List.prefix_refl _)
    have hsum : s.value + d.value = e.value := by
      rw [he, hpartial, List.map_append, List.sum_append]
      simp
    rw [hsum] at hround
    rw [hround.value_eq, he]

end Decimal

namespace Dict

variable {α : Type} {d : Dict α} {key : String}

theorem mem_keys_iff : key ∈ d.keys ↔ ∃ v, d.get? key = some v := by
  rw [keys, ← lookup_isSome_iff_mem, ← Option.isSome_iff_exists]
  rfl

end Dict

namespace Paper

/-! ## One pass over the orders -/

/-- The totals of a market's orders, oldest first. -/
def totals (marketId : String) (orders : List OpenOrder) : List Decimal :=
  (orders.filter (·.marketId == marketId)).map (·.total)

/-- The map has an entry for each market with an order, and it is the sum of their totals. -/
structure OnHold (orders : List OpenOrder) (held : Dict Decimal) : Prop where
  keys : ∀ m, m ∈ held.keys ↔ ∃ o ∈ orders, o.marketId = m
  sums : ∀ m, Decimal.sum (totals m orders) = .ok ((held.get? m).getD .zero)

variable {orders : List OpenOrder} {o : OpenOrder} {held held' : Dict Decimal}

theorem totals_concat_self : totals o.marketId (orders ++ [o]) =
    totals o.marketId orders ++ [o.total] := by
  simp [totals]

theorem totals_concat_of_ne {m : String} (h : o.marketId ≠ m) :
    totals m (orders ++ [o]) = totals m orders := by
  simp [totals, h]

theorem foldlM_hold_concat_eq_ok_iff : (orders ++ [o]).foldlM hold {} = .ok held' ↔
    ∃ held total, orders.foldlM hold {} = .ok held ∧
      ((held.get? o.marketId).getD .zero).add o.total = .ok total ∧
      held' = held.insert o.marketId total := by
  rw [List.foldlM_append, bind_eq_ok_iff]
  refine exists_congr fun held => ?_
  rw [List.foldlM_cons, bind_eq_ok_iff]
  constructor
  · rintro ⟨hheld, held₁, h, hlast⟩
    obtain ⟨total, ht, h⟩ := bind_eq_ok_iff.mp h
    cases h
    cases hlast
    exact ⟨total, hheld, ht, rfl⟩
  · rintro ⟨total, hheld, ht, rfl⟩
    exact ⟨hheld, _, bind_eq_ok_iff.mpr ⟨total, ht, rfl⟩, rfl⟩

theorem OnHold.concat (h : OnHold orders held) {total : Decimal}
    (ht : ((held.get? o.marketId).getD .zero).add o.total = .ok total) :
    OnHold (orders ++ [o]) (held.insert o.marketId total) where
  keys m := by
    rw [Dict.mem_keys_iff, Dict.get?_insert]
    by_cases hm : m = o.marketId
    · simp [hm]
    · rw [if_neg hm, ← Dict.mem_keys_iff, h.keys]
      simp [Ne.symm hm]
  sums m := by
    rw [Dict.get?_insert]
    by_cases hm : m = o.marketId
    · subst hm
      rw [if_pos rfl, totals_concat_self, Decimal.sum_concat_eq_ok_iff]
      exact ⟨_, h.sums _, ht⟩
    · rw [if_neg hm, totals_concat_of_ne (Ne.symm hm)]
      exact h.sums m

theorem onHold_of_foldlM (h : orders.foldlM hold {} = .ok held) : OnHold orders held := by
  induction orders using List.reverseRecOn generalizing held with
  | nil =>
    cases h
    exact ⟨fun m => by simp [Dict.mem_keys_iff, EmptyCollection.emptyCollection], fun m => rfl⟩
  | append_singleton l o ih =>
    obtain ⟨held', total, hheld, ht, rfl⟩ := foldlM_hold_concat_eq_ok_iff.mp h
    exact (ih hheld).concat ht

/-- The sums of all markets leave no other map. -/
theorem OnHold.unique (h : OnHold orders held) (h' : OnHold orders held') : held = held' := by
  apply Dict.ext_get?
  intro m
  have hkey : m ∈ held.keys ↔ m ∈ held'.keys := (h.keys m).trans (h'.keys m).symm
  have hsum := Except.ok.inj ((h.sums m).symm.trans (h'.sums m))
  rw [Dict.mem_keys_iff, Dict.mem_keys_iff] at hkey
  cases hg : held.get? m with
  | none =>
    cases hg' : held'.get? m with
    | none => rfl
    | some amount' => simp [hg, hg'] at hkey
  | some amount =>
    cases hg' : held'.get? m with
    | none => simp [hg, hg'] at hkey
    | some amount' =>
      rw [hg, hg'] at hsum
      exact congrArg some hsum

theorem exists_held (h : ∀ m, ∃ total, Decimal.sum (totals m orders) = .ok total) :
    ∃ held, orders.foldlM hold {} = .ok held := by
  induction orders using List.reverseRecOn with
  | nil => exact ⟨_, rfl⟩
  | append_singleton l o ih =>
    obtain ⟨held, hheld⟩ := ih fun m => by
      obtain ⟨total, ht⟩ := h m
      by_cases hm : o.marketId = m
      · subst hm
        rw [totals_concat_self, Decimal.sum_concat_eq_ok_iff] at ht
        exact ht.imp fun s hs => hs.1
      · rw [totals_concat_of_ne hm] at ht
        exact ⟨total, ht⟩
    obtain ⟨total, ht⟩ := h o.marketId
    rw [totals_concat_self, Decimal.sum_concat_eq_ok_iff] at ht
    obtain ⟨s, hs, ht⟩ := ht
    cases hs.symm.trans ((onHold_of_foldlM hheld).sums o.marketId)
    exact ⟨_, foldlM_hold_concat_eq_ok_iff.mpr ⟨held, total, hheld, ht, rfl⟩⟩

/-- **One pass groups and sums.** -/
theorem foldlM_hold_eq_ok_iff : orders.foldlM hold {} = .ok held ↔ OnHold orders held := by
  refine ⟨onHold_of_foldlM, fun h => ?_⟩
  obtain ⟨held', hheld⟩ := exists_held fun m => ⟨_, h.sums m⟩
  rw [hheld, h.unique (onHold_of_foldlM hheld)]

/-! ## Reports -/

/-- A report of these funds and orders. -/
structure Accounts (available : Dict Decimal) (orders : List OpenOrder) (b : Balances) : Prop where
  available : b.available = available
  /-- The markets with at least one order. -/
  keys : ∀ m, m ∈ b.onHold.keys ↔ ∃ o ∈ orders, o.marketId = m
  /-- The sum of the totals of the market's orders, oldest first. -/
  sums : ∀ m amount, b.onHold.get? m = some amount → Decimal.sum (totals m orders) = .ok amount

theorem accounts_iff {available : Dict Decimal} {b : Balances} :
    Accounts available orders b ↔ b.available = available ∧ OnHold orders b.onHold := by
  constructor
  · refine fun h => ⟨h.available, h.keys, fun m => ?_⟩
    cases hg : b.onHold.get? m with
    | some amount => exact h.sums m amount hg
    | none =>
      have hno : ¬ ∃ o ∈ orders, o.marketId = m := by
        rw [← h.keys, Dict.mem_keys_iff, hg]
        nofun
      have hempty : totals m orders = [] := by
        rw [totals, List.map_eq_nil_iff, List.filter_eq_nil_iff]
        simpa using hno
      rw [hempty]
      rfl
  · refine fun h => ⟨h.1, h.2.keys, fun m amount hg => ?_⟩
    rw [h.2.sums, hg]
    rfl

/-- What counts of an order. -/
def holding (o : OpenOrder) : String × Decimal := (o.marketId, o.total)

theorem totals_eq (m : String) (orders : List OpenOrder) :
    totals m orders = ((orders.map holding).filter (·.1 == m)).map (·.2) := by
  rw [totals, List.filter_map, List.map_map]
  rfl

theorem Accounts.congr {available : Dict Decimal} {orders' : List OpenOrder} {b : Balances}
    (h : orders.map holding = orders'.map holding) :
    Accounts available orders b ↔ Accounts available orders' b := by
  have hmarket (m : String) : (∃ o ∈ orders, o.marketId = m) ↔ ∃ o ∈ orders', o.marketId = m := by
    have hmem (l : List OpenOrder) :
        (∃ o ∈ l, o.marketId = m) ↔ m ∈ (l.map holding).map (·.1) := by
      simp [holding]
    rw [hmem, hmem, h]
  have htotals (m : String) : totals m orders = totals m orders' := by
    rw [totals_eq, totals_eq, h]
  constructor
  · exact fun ha => ⟨ha.available, fun m => (ha.keys m).trans (hmarket m),
      fun m amount hm => htotals m ▸ ha.sums m amount hm⟩
  · exact fun ha => ⟨ha.available, fun m => (ha.keys m).trans (hmarket m).symm,
      fun m amount hm => htotals m ▸ ha.sums m amount hm⟩

variable {now : Timestamp} {w : World} {b : Balances}

theorem gives_balances_iff : (exchange.balances).Gives now w b ↔
    Accounts w.paper.available w.paper.orders b := by
  show (Call.lift look >>= fun p => Call.compute p.balances).Gives now w b ↔ _
  rw [Call.Gives, run_look]
  refine Call.gives_compute_iff.trans ?_
  rw [balances, bind_eq_ok_iff, accounts_iff]
  simp only [foldlM_hold_eq_ok_iff]
  constructor
  · rintro ⟨held, hheld, h⟩
    cases h
    exact ⟨rfl, hheld⟩
  · rintro ⟨h, hheld⟩
    refine ⟨b.onHold, hheld, ?_⟩
    rw [← h]
    rfl

/-! ## What no call changes -/

/-- The exchange without its prices and orders. -/
def World.setUp (w : World) : Paper := { w.paper with prices := {}, orders := [], issued := 0 }

theorem apart_setUp : Apart World.setUp := ⟨fun _ _ => rfl, fun _ _ _ => rfl⟩

/-- What is left of the call leaves a part of the world alone. -/
def Stage.Spares {γ : Type} (part : World → γ) : Stage → Prop
  | .lookingUp _ _ rest => ∀ w, rest.Leaves part w
  | .asking _ rest => ∀ w, rest.Leaves part w
  | .ready _ _ | .placed _ _ | .cancelled _ _ _ | .listed _ _ | .answered _ _ => True

namespace Desk

variable {d d' : Desk} {a : Act} {σ : Nat → Act} {n : Nat}

theorem spares_goOn (hs : ∀ s ∈ d.calls, s.Spares World.setUp) (k : Nat) (now : Timestamp) :
    (d.goOn k now).world.setUp = d.world.setUp ∧
      ∀ s ∈ (d.goOn k now).calls, s.Spares World.setUp := by
  unfold goOn
  split
  · next t ht p hk =>
    obtain ⟨hw, hrest⟩ := (hs _ (List.mem_of_getElem? hk) d.world).resume now
    refine ⟨hw, forall_set hs ?_⟩
    match h : (p.resume now d.world).rest with
    | .inl (.ok _) | .inl (.error _) => trivial
    | .inr (ms, q) => exact hrest ms q h
  · next q p hk =>
    obtain ⟨hw, hrest⟩ := (hs _ (List.mem_of_getElem? hk) d.world).resume now
    refine ⟨hw, forall_set hs ?_⟩
    match h : (p.resume now d.world).rest with
    | .inl _ => trivial
    | .inr (ms, q) => exact hrest ms q h
  · exact ⟨rfl, hs⟩

theorem spares_enter (hs : ∀ s ∈ d.calls, s.Spares World.setUp) (k : Nat) (id : String)
    (now : Timestamp) : (d.enter k id now).world.setUp = d.world.setUp ∧
      ∀ s ∈ (d.enter k id now).calls, s.Spares World.setUp := by
  unfold enter
  split
  · next t ht hk =>
    rw [run_enter]
    cases orderOf t id now with
    | ok o => exact ⟨rfl, forall_set hs trivial⟩
    | error c => exact ⟨rfl, forall_set hs trivial⟩
  · exact ⟨rfl, hs⟩

/-- **No act changes what was set up.** -/
theorem spares_act (hs : ∀ s ∈ d.calls, s.Spares World.setUp) (a : Act) :
    (d.act a).world.setUp = d.world.setUp ∧ ∀ s ∈ (d.act a).calls, s.Spares World.setUp := by
  cases a with
  | place t =>
    refine ⟨rfl, forall_concat hs ?_⟩
    unfold Stage.ofTicket
    split
    · exact leaves_price apart_setUp _
    · trivial
  | ask q => exact ⟨rfl, forall_concat hs (q.leaves apart_setUp)⟩
  | goOn k now => exact spares_goOn hs k now
  | enter k id now => exact spares_enter hs k id now
  | cancel | list => exact ⟨rfl, forall_concat hs trivial⟩
  | relink => exact ⟨rfl, hs⟩

theorem paper_opened (c : Config.Exchange) (w : World) (now : Timestamp) :
    (opened c w now).world.paper = seeded c := by
  rw [opened, run_initialise]
  rfl

/-- At all times the exchange is as it was seeded, but for its prices and orders. -/
theorem setUp_after (c : Config.Exchange) (w : World) (now : Timestamp) (σ : Nat → Act) (n : Nat) :
    ((opened c w now).after σ n).world.setUp =
      { seeded c with prices := {}, orders := [], issued := 0 } := by
  suffices h : ((opened c w now).after σ n).world.setUp = (opened c w now).world.setUp ∧
      ∀ s ∈ ((opened c w now).after σ n).calls, s.Spares World.setUp by
    rw [h.1, World.setUp, paper_opened]
  induction n with
  | zero => exact ⟨rfl, by simp [after, opened]⟩
  | succ n ih =>
    obtain ⟨hw, hs⟩ := spares_act ih.2 (σ n)
    exact ⟨hw.trans ih.1, hs⟩

theorem available_after (c : Config.Exchange) (w : World) (now : Timestamp) (σ : Nat → Act)
    (n : Nat) : ((opened c w now).after σ n).world.paper.available = (seeded c).available := by
  have h := congrArg Paper.available (setUp_after c w now σ n)
  exact h

theorem gives_balances_after (c : Config.Exchange) (w : World) (now : Timestamp) (σ : Nat → Act)
    (n : Nat) (t : Timestamp) (b : Balances) :
    (exchange.balances).Gives t ((opened c w now).after σ n).world b ↔
      Accounts (seeded c).available ((opened c w now).after σ n).orders b := by
  rw [← available_after c w now σ n]
  exact gives_balances_iff

/-! ## Withdrawn orders -/

theorem Deals.keeps {deeds : List Deed} (hm : Deals d a deeds d') {k : Nat} {s : Stage}
    (hs : s.Succeeds) (hk : d.calls[k]? = some s) : d'.calls[k]? = some s := by
  cases hm with
  | begins | cancels | lists => exact getElem?_concat.mpr (.inl hk)
  | relinks | holds => exact hk
  | goesOn hk' hs₀ _ hs' => exact (succeeds_set hk' hs₀ hs' k s hs).mpr hk
  | enters hk' | overflows hk' =>
    refine (getElem?_set hk').mpr (.inr ⟨?_, hk⟩)
    rintro rfl
    cases hk.symm.trans hk'
    cases hs

variable {c : Config.Exchange} {w : World} {now : Timestamp}

theorem keeps_after {k n' : Nat} {s : Stage} (hs : s.Succeeds) (hle : n ≤ n')
    (hk : ((opened c w now).after σ n).calls[k]? = some s) :
    ((opened c w now).after σ n').calls[k]? = some s := by
  induction n', hle using Nat.le_induction with
  | base => exact hk
  | succ n' _ ih => exact (deals_after c w now σ n').keeps hs ih

/-- An order on the books is that of the call which has returned its identifier. -/
theorem Booked.records {h : List Deed} (hb : Booked d h) {k : Nat} {t : Ticket} {o : OpenOrder}
    (hk : d.calls[k]? = some (.placed t (.ok o.id))) (ho : o ∈ d.orders) : Records t o := by
  rw [hb.orders] at ho
  obtain ⟨k', hk'⟩ := mem_entries.mp ((standing_sublist h).subset ho)
  obtain ⟨o', ho', hid⟩ := hb.returned k t o.id hk
  obtain ⟨rfl, rfl⟩ := eq_of_nodup_idsOf hb.distinct ho' hk' hid
  obtain ⟨t', -, hr, hk''⟩ := hb.entered _ _ hk'
  cases hk.symm.trans hk''
  exact hr

/-- A withdrawal that has found an order leaves the others, and no trace of this one. -/
theorem orders_of_withdrawn (hf : DrawsFresh (opened c w now) σ) {id m : String} {t₀ : Timestamp}
    (hn : σ n = .cancel id m t₀)
    (hfound : ((opened c w now).after σ (n + 1)).calls =
      ((opened c w now).after σ n).calls ++ [.cancelled id m (.ok true)]) :
    (∃ o ∈ ((opened c w now).after σ n).orders, o.id = id) ∧
      ((opened c w now).after σ (n + 1)).orders =
        ((opened c w now).after σ n).orders.filter (·.id ≠ id) ∧
      ∀ n' > n, ∀ o ∈ ((opened c w now).after σ n').orders, o.id ≠ id := by
  have hlast : ((opened c w now).after σ (n + 1)).calls[
      ((opened c w now).after σ n).calls.length]? = some (.cancelled id m (.ok true)) := by
    rw [hfound]
    exact List.getElem?_concat_length
  have hgone (n' : Nat) (hlt : n < n') : ∀ o ∈ ((opened c w now).after σ n').orders, o.id ≠ id :=
    ((booked_after c w now hf n').gone _ id m
      (keeps_after (.cancelled id m) (Nat.succ_le_of_lt hlt) hlast)).2
  have hact : (opened c w now).after σ (n + 1) =
      ((opened c w now).after σ n).act (.cancel id m t₀) := by rw [after, hn]
  obtain ⟨found, hcalls, -, -, htrue⟩ := (booked_after c w now hf n).cancel id m t₀
  rw [← hact, hfound] at hcalls
  obtain rfl : true = found := by simpa using hcalls
  obtain ⟨before, o, behind, hid, -, hbefore, hafter⟩ := htrue rfl
  rw [← hact] at hafter
  refine ⟨⟨o, by simp [hbefore], hid⟩, ?_, hgone⟩
  -- What is left of the books holds no order of this id, so the filter keeps it whole.
  have hothers := hgone (n + 1) (Nat.lt_succ_self n)
  rw [hafter] at hothers
  rw [hafter, hbefore, List.filter_append, List.filter_cons_of_neg (by simpa using hid),
    ← List.filter_append, List.filter_eq_self.mpr]
  simpa using hothers

/-! ## Balance reports -/

/-- How an exchange that is set up from a configuration reports its balances. -/
structure Reports (c : Config.Exchange) (d : Desk) (σ : Nat → Act) : Prop where
  seeds : amounts c.other balanceKey = .ok (seeded c).available
  /-- A report accounts for the seeded funds and the open orders, whatever has happened before. It
  is there unless a sum is out of range. -/
  report : ∀ (n : Nat) (t : Timestamp) (b : Balances),
    (exchange.balances).Gives t (d.after σ n).world b ↔
      Accounts (seeded c).available (d.after σ n).orders b
  /-- Sums are exact as long as every partial sum is a decimal. -/
  exact : ∀ (n : Nat) (t : Timestamp) (b : Balances),
    (exchange.balances).Gives t (d.after σ n).world b → ∀ m amount, b.onHold.get? m = some amount →
      (∀ l, l <+: totals m (d.after σ n).orders → ∃ e : Decimal, e.value = (l.map (·.value)).sum) →
      amount.value = ((totals m (d.after σ n).orders).map (·.value)).sum
  /-- Two histories that end with the same funds seeded and the same orders open report the same;
  of an order, only its market and its total count. -/
  same : ∀ (c' : Config.Exchange) (w' : World) (now' : Timestamp) (σ' : Nat → Act) (n n' : Nat),
    (seeded c').available = (seeded c).available →
    ((opened c' w' now').after σ' n').orders.map holding = (d.after σ n).orders.map holding →
    ∀ (t t' : Timestamp) (b : Balances),
      (exchange.balances).Gives t' ((opened c' w' now').after σ' n').world b ↔
        (exchange.balances).Gives t (d.after σ n).world b
  /-- Once the order of a call is withdrawn by the identifier that the call has returned, the report
  accounts for the other orders alone, and the order is on the books no more. -/
  withdrawn : DrawsFresh d σ → ∀ (n k : Nat) (t : Ticket) (id m : String) (t₀ : Timestamp),
    (d.after σ n).calls[k]? = some (.placed t (.ok id)) → σ n = .cancel id m t₀ →
    (d.after σ (n + 1)).calls = (d.after σ n).calls ++ [.cancelled id m (.ok true)] →
    (∃ o ∈ (d.after σ n).orders, o.id = id ∧ Records t o) ∧
    (∀ t₁ b, (exchange.balances).Gives t₁ (d.after σ (n + 1)).world b ↔
      Accounts (seeded c).available ((d.after σ n).orders.filter (·.id ≠ id)) b) ∧
    ∀ n' > n, ∀ o ∈ (d.after σ n').orders, o.id ≠ id

/-- **Balance reports** are settled by the seeds and the open orders: at every moment, whatever the
callers did, and in whatever order they took their turns. -/
theorem reports_after (w : World) (now : Timestamp) (σ : Nat → Act)
    (hinit : (init c {}).1 = .ok ()) : Reports c (opened c w now) σ where
  seeds := amounts_of_init hinit
  report := gives_balances_after c w now σ
  exact n t b hb m amount hm hdecimal :=
    Decimal.sum_exact (((gives_balances_after c w now σ n t b).mp hb).sums m amount hm) hdecimal
  same c' w' now' σ' n n' hseeds horders t t' b := by
    rw [gives_balances_after, gives_balances_after, hseeds]
    exact Accounts.congr horders
  withdrawn hf n k t id m t₀ hk hn hfound := by
    obtain ⟨⟨o, ho, rfl⟩, horders, hgone⟩ := orders_of_withdrawn hf hn hfound
    refine ⟨⟨o, ho, rfl, (booked_after c w now hf n).records hk ho⟩, fun t₁ b => ?_, hgone⟩
    rw [gives_balances_after, horders]

end Desk

end Paper

/-! ## A rehearsed report -/

namespace Rehearsed

open Paper

/-- The exchange of before, with some funds. -/
def vault : Config.Exchange :=
  { shop with other := .ofList [("balance.BTC", "0.5"), ("price.btcusd", "1000")] }

/-- Two orders are open, and then one of them is withdrawn. -/
theorem reports_rehearsed :
    let d := Desk.opened vault {} dawn
    (init vault {}).1 = .ok () ∧ Desk.Reports vault d bustling ∧
      (exchange.balances).Gives dawn (d.after bustling 7).world
        { available := .ofList [("BTC", { coeff := 5, scale := 1 })]
          onHold := .ofList [("btcusd", .ofNat 8690)] } ∧
      (exchange.balances).Gives dawn (d.after bustling 8).world
        { available := .ofList [("BTC", { coeff := 5, scale := 1 })]
          onHold := .ofList [("btcusd", .ofNat 990)] } ∧
      ∀ n' > 7, ∀ o ∈ (d.after bustling n').orders, o.id ≠ "sold" := by
  have hinit : (init vault {}).1 = .ok () := by decide +kernel
  have hreports := Desk.reports_after (c := vault) {} dawn bustling hinit
  refine ⟨hinit, hreports, ?_, ?_, ?_⟩
  · show (_ : Except Fault Balances) = _
    decide +kernel
  · show (_ : Except Fault Balances) = _
    decide +kernel
  · have hcalls : ((Desk.opened vault {} dawn).after bustling 8).calls =
        ((Desk.opened vault {} dawn).after bustling 7).calls ++
          [.cancelled "sold" "btcusd" (.ok true)] := rfl
    exact (hreports.withdrawn (Desk.drawsFresh_of_once drawsOnce_bustling) 7 1 ask "sold" "btcusd"
      dawn rfl rfl hcalls).2.2

end Rehearsed

end TradingBot
