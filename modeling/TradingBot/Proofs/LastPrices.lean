import Mathlib.Data.List.Induction
import TradingBot.Proofs.Interference
import TradingBot.Proofs.Watching

/-!
# The last price of a market watch

**Rounds** (`MarketWatch.Round`). An execution asks for the price, and after that, if there is a
price and the settings ask for it, for the order book. This is all that it may do, whatever others
do while it waits for the replies.

**Runs** (`MarketWatch.Runs`). Any number of executions in a row, each in whatever world it finds.
Of each we keep what it asked, with the replies, and what it came to (`MarketWatch.Cycle`).

**Theorem (`MarketWatch.lastPrice_of_latest_cycle`).** The last price is that of the latest cycle
that told one: the reply to its question for the price was a price, and the order book did not fail
for good afterwards. A cycle fails exactly if a reply ends it, and a network error never does.
-/

namespace TradingBot

/-! ## The latest of a list -/

section

variable {α β : Type} {P : α → β → Prop} {l : List α} {a : α} {b b' : β}

/-- The latest element that is related to anything is related to this. -/
def Latest (P : α → β → Prop) (l : List α) (b : β) : Prop :=
  ∃ before a after, l = before ++ a :: after ∧ P a b ∧ ∀ a' ∈ after, ∀ b', ¬ P a' b'

theorem latest_concat_of_rel (h : P a b) (hone : ∀ b', P a b' → b' = b) :
    Latest P (l ++ [a]) b' ↔ b' = b := by
  constructor
  · rintro ⟨before, a', after, hl, ha', hafter⟩
    rcases List.eq_nil_or_concat' after with rfl | ⟨rest, last, rfl⟩
    · obtain ⟨-, hlast⟩ := List.append_inj' hl rfl
      cases hlast
      exact hone b' ha'
    · rw [← List.cons_append, ← List.append_assoc] at hl
      obtain ⟨-, hlast⟩ := List.append_inj' hl rfl
      cases hlast
      exact absurd h (hafter a (by simp) b)
  · rintro rfl
    exact ⟨l, a, [], rfl, h, List.forall_mem_nil _⟩

theorem latest_concat_of_not (h : ∀ b, ¬ P a b) : Latest P (l ++ [a]) b' ↔ Latest P l b' := by
  constructor
  · rintro ⟨before, a', after, hl, ha', hafter⟩
    rcases List.eq_nil_or_concat' after with rfl | ⟨rest, last, rfl⟩
    · obtain ⟨-, hlast⟩ := List.append_inj' hl rfl
      cases hlast
      exact absurd ha' (h b')
    · rw [← List.cons_append, ← List.append_assoc] at hl
      obtain ⟨hinit, -⟩ := List.append_inj' hl rfl
      exact ⟨before, a', rest, hinit, ha', fun x hx => hafter x (by simp [hx])⟩
  · rintro ⟨before, a', after, rfl, ha', hafter⟩
    refine ⟨before, a', after ++ [a], by simp, ha', fun x hx => ?_⟩
    rcases List.mem_append.mp hx with hx | hx
    · exact hafter x hx
    · rw [List.mem_singleton.mp hx]
      exact h

theorem exists_latest_iff : (∃ b, Latest P l b) ↔ ∃ a ∈ l, ∃ b, P a b := by
  constructor
  · rintro ⟨b, before, a, after, rfl, ha, -⟩
    exact ⟨a, by simp, b, ha⟩
  · induction l using List.reverseRecOn with
    | nil =>
      rintro ⟨a, ha, -⟩
      cases ha
    | append_singleton l last ih =>
      rintro ⟨a, ha, b, hb⟩
      by_cases hlast : ∃ b', P last b'
      · obtain ⟨b', hb'⟩ := hlast
        exact ⟨b', l, last, [], rfl, hb', List.forall_mem_nil _⟩
      · have hnot := not_exists.mp hlast
        simp only [latest_concat_of_not hnot]
        rcases List.mem_append.mp ha with ha | ha
        · exact ih ⟨a, ha, b, hb⟩
        · rw [List.mem_singleton.mp ha] at hb
          exact absurd hb (hnot b)

end

namespace MarketWatch

/-! ## Rounds -/

variable {ω τ : Type} {m : Market} {s s' : MarketWatch} {r : Except StrategyFault Unit}

/-- An instance after a cycle that had a price. -/
def keep (s : MarketWatch) (price : Decimal) : Except StrategyFault Unit → MarketWatch
  | .ok () => { s with lastPrice := some price }
  | .error _ => s

/-- What an execution in a market may come to, from a world on. -/
inductive Round (x : Exchange τ) (R : τ → τ → Prop) (m : Market) (s : MarketWatch) (v : τ) :
    Except StrategyFault Unit → MarketWatch → τ → Prop
  | missed {f : Fault} {v' : τ} : (x.price m.id).run.MayEnd R v (.error f) v' →
      Round x R m s v (faultOf m.id f) s v'
  | seen {price : Decimal} {v' : τ} : s.logsBook = false →
      (x.price m.id).run.MayEnd R v (.ok price) v' →
      Round x R m s v (.ok ()) (s.keep price (.ok ())) v'
  | browsed {price : Decimal} {book : Except Fault OrderBook} {v₁ v' : τ} : s.logsBook = true →
      (x.price m.id).run.MayEnd R v (.ok price) v₁ → (x.orderBook m.id).run.MayEnd R v₁ book v' →
      Round x R m s v (verdict m.id book) (s.keep price (verdict m.id book)) v'

section

variable {x : Exchange τ} {R : τ → τ → Prop} {v v' : τ}

theorem mayEnd_judge {f : Fault} : (judge m f).MayEnd R v r v' ↔ faultOf m.id f = r ∧ v = v' := by
  match f with
  | .error (.network detail) =>
    show (Program.tell _ _ _ >>= fun _ => pure _).MayEnd R v r v' ↔ _
    rw [Program.mayEnd_bind]
    constructor
    · rintro ⟨u, v₁, htell, hr, rfl⟩
      exact ⟨hr, Program.mayEnd_tell.mp htell⟩
    · rintro ⟨hr, rfl⟩
      exact ⟨(), v, Program.mayEnd_tell.mpr rfl, hr, rfl⟩
  | .error (.api detail) => exact Iff.rfl
  | .crash c => exact Iff.rfl

theorem mayEnd_watchBook : (watchBook x m s).MayEnd R v r v' ↔
    (s.logsBook = false ∧ r = .ok () ∧ v = v') ∨ (s.logsBook = true ∧ ∃ book,
      (x.orderBook m.id).run.MayEnd R v book v' ∧ r = verdict m.id book) := by
  unfold watchBook
  cases hb : s.logsBook with
  | false =>
    rw [if_neg Bool.false_ne_true, Program.mayEnd_pure]
    simp [eq_comm]
  | true =>
    rw [if_pos rfl, Program.mayEnd_bind]
    constructor
    · rintro ⟨book, v₁, hbook, h⟩
      refine .inr ⟨rfl, book, ?_⟩
      cases book with
      | error f =>
        obtain ⟨hr, rfl⟩ := mayEnd_judge.mp h
        exact ⟨hbook, hr.symm⟩
      | ok b =>
        obtain ⟨u, v₂, htell, hr, rfl⟩ := Program.mayEnd_bind.mp h
        rw [Program.mayEnd_tell.mp htell] at hbook
        exact ⟨hbook, hr.symm⟩
    · rintro (⟨hfalse, -⟩ | ⟨-, book, hbook, rfl⟩)
      · cases hfalse
      · refine ⟨book, v', hbook, ?_⟩
        cases book with
        | error f => exact mayEnd_judge.mpr ⟨rfl, rfl⟩
        | ok b => exact Program.mayEnd_bind.mpr ⟨(), v', Program.mayEnd_tell.mpr rfl, rfl, rfl⟩

/-- The rest of an execution, after its look at the price. -/
def afterPrice (x : Exchange τ) (m : Market) (s : MarketWatch) :
    Except Fault Decimal → Program τ (Except StrategyFault Unit × MarketWatch)
  | .error fault => do return (← judge m fault, s)
  | .ok price => do
    Program.tell .info "Latest market price" [("market", m.id), ("price", price.render)]
    match ← watchBook x m s with
    | .error e => return (.error e, s)
    | .ok () => return (.ok (), { s with lastPrice := some price })

theorem watch_eq : watch x m s = (x.price m.id).run >>= afterPrice x m s := rfl

theorem mayEnd_afterPrice_error {fault : Fault} :
    (afterPrice x m s (.error fault)).MayEnd R v (r, s') v' ↔
      faultOf m.id fault = r ∧ s = s' ∧ v = v' := by
  rw [afterPrice, Program.mayEnd_bind]
  constructor
  · rintro ⟨r', v₁, hjudge, hr, rfl⟩
    obtain ⟨rfl, rfl⟩ := mayEnd_judge.mp hjudge
    cases hr
    exact ⟨rfl, rfl, rfl⟩
  · rintro ⟨rfl, rfl, rfl⟩
    exact ⟨_, v, mayEnd_judge.mpr ⟨rfl, rfl⟩, rfl, rfl⟩

theorem mayEnd_afterPrice_ok {price : Decimal} :
    (afterPrice x m s (.ok price)).MayEnd R v (r, s') v' ↔
      (watchBook x m s).MayEnd R v r v' ∧ s.keep price r = s' := by
  rw [afterPrice, Program.mayEnd_bind]
  constructor
  · rintro ⟨u, v₁, htell, h⟩
    obtain rfl := Program.mayEnd_tell.mp htell
    obtain ⟨r', v₂, hbook, h⟩ := Program.mayEnd_bind.mp h
    cases r' with
    | error e =>
      obtain ⟨hr, rfl⟩ := h
      cases hr
      exact ⟨hbook, rfl⟩
    | ok u =>
      obtain ⟨hr, rfl⟩ := h
      cases hr
      exact ⟨hbook, rfl⟩
  · rintro ⟨hbook, rfl⟩
    refine ⟨(), v, Program.mayEnd_tell.mpr rfl, Program.mayEnd_bind.mpr ⟨r, v', hbook, ?_⟩⟩
    cases r with
    | error e => exact ⟨rfl, rfl⟩
    | ok u => exact ⟨rfl, rfl⟩

/-- **An execution is a round**, and every round may be one. -/
theorem mayEnd_execute_iff (hm : s.market = some m) :
    (execute x s).MayEnd R v (r, s') v' ↔ Round x R m s v r s' v' := by
  have hexecute : execute x s = watch x m s := by rw [execute, hm]
  rw [hexecute, watch_eq, Program.mayEnd_bind]
  constructor
  · rintro ⟨reply, v₁, hprice, h⟩
    cases reply with
    | error f =>
      obtain ⟨rfl, rfl, rfl⟩ := mayEnd_afterPrice_error.mp h
      exact .missed hprice
    | ok price =>
      obtain ⟨hrest, rfl⟩ := mayEnd_afterPrice_ok.mp h
      rcases mayEnd_watchBook.mp hrest with ⟨hb, rfl, rfl⟩ | ⟨hb, book, hbook, rfl⟩
      · exact .seen hb hprice
      · exact .browsed hb hprice hbook
  · intro h
    cases h with
    | missed hprice => exact ⟨_, _, hprice, mayEnd_afterPrice_error.mpr ⟨rfl, rfl, rfl⟩⟩
    | seen hb hprice =>
      have hrest : (watchBook x m s).MayEnd R v' (.ok ()) v' :=
        mayEnd_watchBook.mpr (.inl ⟨hb, rfl, rfl⟩)
      exact ⟨_, _, hprice, mayEnd_afterPrice_ok.mpr ⟨hrest, rfl⟩⟩
    | browsed hb hprice hbook =>
      have hrest := mayEnd_watchBook.mpr (.inr ⟨hb, _, hbook, rfl⟩)
      exact ⟨_, _, hprice, mayEnd_afterPrice_ok.mpr ⟨hrest, rfl⟩⟩

end

theorem mayEnd_execute_of_none {x : Exchange τ} {R : τ → τ → Prop} {v v' : τ}
    (hm : s.market = none) : (execute x s).MayEnd R v (r, s') v' ↔
      r = .error (.failure "market watch executed before init") ∧ s' = s ∧ v' = v := by
  have hexecute : execute x s =
      pure (.error (.failure "market watch executed before init"), s) := by
    rw [execute, hm]
  rw [hexecute, Program.mayEnd_pure, Prod.mk.injEq, and_assoc, eq_comm (b := r), eq_comm (b := s'),
    eq_comm (b := v')]

/-! ## Cycles -/

/-- What an execution asked, with the replies, and what it came to. -/
structure Cycle where
  notes : List Note
  result : Except StrategyFault Unit

/-- A reply that ends an execution, with what the execution comes to. -/
inductive Ends (marketId : String) : Fault → StrategyFault → Prop
  | api (detail : String) : Ends marketId (.error (.api detail))
      (.failure s!"Exchange API error while watching market {marketId}: {detail}")
  | crash (c : Crash) : Ends marketId (.crash c) (.crash c)

theorem faultOf_eq_error_iff {marketId : String} {f : Fault} {e : StrategyFault} :
    faultOf marketId f = .error e ↔ Ends marketId f e := by
  constructor
  · intro h
    match f with
    | .error (.network detail) => cases h
    | .error (.api detail) =>
      cases h
      exact .api detail
    | .crash c =>
      cases h
      exact .crash c
  · intro h
    cases h <;> rfl

namespace Cycle

/-- A question about the market got this fault for a reply. -/
def Failed (c : Cycle) (marketId : String) (f : Fault) : Prop :=
  .price marketId (.error f) ∈ c.notes ∨ .orderBook marketId (.error f) ∈ c.notes

/-- There was a price, and the order book was not asked for, or was there, or could not be had for
a network error. -/
inductive Tells (marketId : String) (c : Cycle) (price : Decimal) : Prop
  | alone : c.notes = [.price marketId (.ok price)] → Tells marketId c price
  | withBook {b : OrderBook} :
      c.notes = [.price marketId (.ok price), .orderBook marketId (.ok b)] → Tells marketId c price
  | withoutBook {detail : String} : c.notes = [.price marketId (.ok price),
      .orderBook marketId (.error (.error (.network detail)))] → Tells marketId c price

variable {c : Cycle} {marketId : String} {price price' : Decimal}

theorem Tells.head (h : c.Tells marketId price) :
    ∃ rest, c.notes = .price marketId (.ok price) :: rest := by
  cases h with
  | alone h | withBook h | withoutBook h => exact ⟨_, h⟩

theorem Tells.unique (h : c.Tells marketId price) (h' : c.Tells marketId price') :
    price' = price := by
  obtain ⟨rest, hn⟩ := h.head
  obtain ⟨rest', hn'⟩ := h'.head
  rw [hn] at hn'
  cases hn'
  rfl

end Cycle

/-- What a cycle of an instance may be: what was asked and replied, and what it came to. -/
inductive Looked (marketId : String) (logsBook : Bool) : Cycle → Prop
  | missed (f : Fault) :
      Looked marketId logsBook ⟨[.price marketId (.error f)], faultOf marketId f⟩
  | seen (price : Decimal) : logsBook = false →
      Looked marketId logsBook ⟨[.price marketId (.ok price)], .ok ()⟩
  | browsed (price : Decimal) (book : Except Fault OrderBook) : logsBook = true →
      Looked marketId logsBook
        ⟨[.price marketId (.ok price), .orderBook marketId book], verdict marketId book⟩

namespace Looked

variable {marketId : String} {logsBook : Bool} {c : Cycle}

theorem asks (h : Looked marketId logsBook c) : ∃ reply, c.notes = [.price marketId reply] ∨
    ∃ book, c.notes = [.price marketId reply, .orderBook marketId book] := by
  cases h with
  | missed f => exact ⟨_, .inl rfl⟩
  | seen price _ => exact ⟨_, .inl rfl⟩
  | browsed price book _ => exact ⟨_, .inr ⟨book, rfl⟩⟩

/-- The order book is asked for if there is a price and the settings ask for it. -/
theorem book_iff (h : Looked marketId logsBook c) :
    (∃ book, .orderBook marketId book ∈ c.notes) ↔
      logsBook = true ∧ ∃ price, .price marketId (.ok price) ∈ c.notes := by
  cases h with
  | missed f => simp
  | seen price hb => simp [hb]
  | browsed price book hb => simp [hb]

/-- **A cycle fails for a reply that ends it**, and for no other. -/
theorem fails_iff (h : Looked marketId logsBook c) {e : StrategyFault} :
    c.result = .error e ↔ ∃ f, c.Failed marketId f ∧ Ends marketId f e := by
  unfold Cycle.Failed
  cases h with
  | missed f => simp [faultOf_eq_error_iff]
  | seen price _ => simp
  | browsed price book _ =>
    cases book with
    | ok b => simp [verdict]
    | error f => simp [verdict, faultOf_eq_error_iff]

end Looked

/-! ## Runs -/

/-- Executions in a row of one instance, each in whatever world it finds. -/
inductive Runs (x : Exchange ω) (s : MarketWatch) : List Cycle → MarketWatch → Prop
  | nil : Runs x s [] s
  | concat {cycles : List Cycle} {s' s'' : MarketWatch} {w w' : ω} {notes : List Note}
      {r : Except StrategyFault Unit} : Runs x s cycles s' →
      (execute x.noted s').MayEnd (Unrecorded ω) (w, []) (r, s'') (w', notes) →
      Runs x s (cycles ++ [⟨notes, r⟩]) s''

variable {x : Exchange ω} {w w' : ω} {notes : List Note} {cycles : List Cycle}

/-- **Keeping a record makes no difference** to what an execution may come to. -/
theorem mayEnd_noted_iff (x : Exchange ω) (s : MarketWatch) (w : ω)
    (r : Except StrategyFault Unit) (s' : MarketWatch) (w' : ω) :
    (execute x s).MayEnd (fun _ _ => True) w (r, s') w' ↔
      ∃ notes, (execute x.noted s).MayEnd (Unrecorded ω) (w, []) (r, s') (w', notes) := by
  cases hm : s.market with
  | none =>
    simp only [mayEnd_execute_of_none hm, Prod.mk.injEq]
    simp
  | some m =>
    simp only [mayEnd_execute_iff hm]
    constructor
    · intro h
      cases h with
      | missed hprice => exact ⟨_, .missed (Call.mayEnd_noting.mpr ⟨hprice, rfl⟩)⟩
      | seen hb hprice => exact ⟨_, .seen hb (Call.mayEnd_noting.mpr ⟨hprice, rfl⟩)⟩
      | browsed hb hprice hbook =>
        exact ⟨_, .browsed hb (Call.mayEnd_noting.mpr ⟨hprice, rfl⟩)
          (Call.mayEnd_noting.mpr ⟨hbook, rfl⟩)⟩
    · rintro ⟨notes, h⟩
      cases h with
      | missed hprice => exact .missed (Call.mayEnd_noting.mp hprice).1
      | seen hb hprice => exact .seen hb (Call.mayEnd_noting.mp hprice).1
      | @browsed _ _ v₁ _ hb hprice hbook =>
        exact .browsed hb (Call.mayEnd_noting.mp hprice).1 (Call.mayEnd_noting.mp hbook).1

/-- One more cycle of an instance: how it looked, and which price it keeps. -/
theorem looked_of_mayEnd (hm : s.market = some m)
    (h : (execute x.noted s).MayEnd (Unrecorded ω) (w, []) (r, s') (w', notes)) :
    Looked m.id s.logsBook ⟨notes, r⟩ ∧
      ((∃ price, Cycle.Tells m.id ⟨notes, r⟩ price ∧ s' = { s with lastPrice := some price }) ∨
        (∀ price, ¬ Cycle.Tells m.id ⟨notes, r⟩ price) ∧ s' = s) := by
  cases (mayEnd_execute_iff hm).mp h with
  | @missed f _ hprice =>
    obtain ⟨-, rfl⟩ := Call.mayEnd_noting.mp hprice
    refine ⟨.missed f, .inr ⟨fun price htells => ?_, rfl⟩⟩
    obtain ⟨rest, hnotes⟩ := htells.head
    cases hnotes
  | @seen price _ hb hprice =>
    obtain ⟨-, rfl⟩ := Call.mayEnd_noting.mp hprice
    exact ⟨.seen price hb, .inl ⟨price, .alone rfl, rfl⟩⟩
  | @browsed price book v₁ _ hb hprice hbook =>
    obtain ⟨w₁, l₁⟩ := v₁
    obtain ⟨-, rfl⟩ := Call.mayEnd_noting.mp hprice
    obtain ⟨-, rfl⟩ := Call.mayEnd_noting.mp hbook
    refine ⟨.browsed price book hb, ?_⟩
    -- A book that fails the cycle takes the price back: the notes fit none of the ways to tell one.
    have hno {f : Fault} {e : StrategyFault} (hends : Ends m.id f e) (p : Decimal) :
        ¬ Cycle.Tells m.id ⟨[] ++ [.price m.id (.ok price)] ++ [.orderBook m.id (.error f)],
          verdict m.id (.error f)⟩ p := by
      intro htells
      cases htells with
      | alone hnotes => cases hnotes
      | withBook hnotes => cases hnotes
      | withoutBook hnotes =>
        cases hnotes
        cases hends
    match book with
    | .ok b => exact .inl ⟨price, .withBook rfl, rfl⟩
    | .error (.error (.network detail)) => exact .inl ⟨price, .withoutBook rfl, rfl⟩
    | .error (.error (.api detail)) => exact .inr ⟨hno (.api detail), rfl⟩
    | .error (.crash c) => exact .inr ⟨hno (.crash c), rfl⟩

/-- Whatever was asked and replied, an instance stays at its market, and its last price is that of
the latest cycle that told one. -/
theorem Runs.looked (h : Runs x s cycles s') (hm : s.market = some m) (hnew : s.lastPrice = none) :
    s'.market = some m ∧ s'.logsBook = s.logsBook ∧ (∀ c ∈ cycles, Looked m.id s.logsBook c) ∧
      ∀ price, s'.lastPrice = some price ↔ Latest (Cycle.Tells m.id) cycles price := by
  induction h with
  | nil =>
    refine ⟨hm, rfl, List.forall_mem_nil _, fun price => ?_⟩
    rw [hnew]
    refine iff_of_false nofun ?_
    rintro ⟨before, c, after, hl, -⟩
    simp at hl
  | concat _ hend ih =>
    obtain ⟨hm', hb', hall, hlast⟩ := ih
    obtain ⟨hlooked, hkept⟩ := looked_of_mayEnd hm' hend
    rw [hb'] at hlooked
    have hall' := List.forall_mem_append.mpr ⟨hall, List.forall_mem_singleton.mpr hlooked⟩
    rcases hkept with ⟨price, htells, rfl⟩ | ⟨hno, rfl⟩
    · refine ⟨hm', hb', hall', fun price' => ?_⟩
      rw [latest_concat_of_rel htells fun p hp => htells.unique hp, Option.some.injEq, eq_comm]
    · refine ⟨hm', hb', hall', fun price' => ?_⟩
      rw [latest_concat_of_not hno]
      exact hlast price'

/-- Before the initialisation, every execution fails and asks nothing. -/
theorem Runs.of_none (h : Runs x s cycles s') (hm : s.market = none) : s' = s ∧ ∀ c ∈ cycles,
    c.notes = [] ∧ c.result = .error (.failure "market watch executed before init") := by
  induction h with
  | nil => exact ⟨rfl, List.forall_mem_nil _⟩
  | concat _ hend ih =>
    obtain ⟨rfl, hall⟩ := ih
    obtain ⟨rfl, rfl, hw⟩ := (mayEnd_execute_of_none hm).mp hend
    cases hw
    exact ⟨rfl, List.forall_mem_append.mpr ⟨hall, List.forall_mem_singleton.mpr ⟨rfl, rfl⟩⟩⟩

theorem exists_mayEnd (x : Exchange ω) (s : MarketWatch) (w : ω) : ∃ r s' w' notes,
    (execute x.noted s).MayEnd (Unrecorded ω) (w, []) (r, s') (w', notes) :=
  have hends := Program.mayEnd_run (Program.Slot.Within.refl (worldSlot ω)) (execute x.noted s)
    ⟨0, 0⟩ (w, [])
  ⟨_, _, _, _, hends⟩

/-! ## The whole of it -/

/-- What a market watch has asked and done in its cycles, and the price that it keeps. -/
structure Accounts (m : Market) (logsBook : Bool) (cycles : List Cycle)
    (lastPrice : Option Decimal) : Prop where
  /-- The last price is that of the latest cycle that told one. -/
  told : ∀ price, lastPrice = some price ↔ Latest (Cycle.Tells m.id) cycles price
  untold : lastPrice = none ↔ ∀ c ∈ cycles, ∀ price, ¬ c.Tells m.id price
  /-- The price is asked for first, and then at most the order book. -/
  asks : ∀ c ∈ cycles, ∃ reply, c.notes = [.price m.id reply] ∨
    ∃ book, c.notes = [.price m.id reply, .orderBook m.id book]
  book : ∀ c ∈ cycles, (∃ book, .orderBook m.id book ∈ c.notes) ↔
    logsBook = true ∧ ∃ price, .price m.id (.ok price) ∈ c.notes
  /-- A cycle fails for a reply that ends it. A network error is none. -/
  fails : ∀ c ∈ cycles, ∀ e, c.result = .error e ↔ ∃ f, c.Failed m.id f ∧ Ends m.id f e

theorem Runs.accounts (h : Runs x s cycles s') (hm : s.market = some m)
    (hnew : s.lastPrice = none) : Accounts m s.logsBook cycles s'.lastPrice := by
  obtain ⟨-, -, hall, hlast⟩ := h.looked hm hnew
  refine ⟨hlast, ?_, fun c hc => (hall c hc).asks, fun c hc => (hall c hc).book_iff,
    fun c hc e => (hall c hc).fails_iff⟩
  rw [Option.eq_none_iff_forall_ne_some]
  simp only [ne_eq, hlast]
  rw [← not_exists, exists_latest_iff]
  push Not
  rfl

/-- An initialisation that goes well keeps the market and whether the book is logged. -/
theorem of_init {settings : Config.Strategy} {now : Timestamp}
    (h : ((init x m settings {}).run now w).1 = (.ok (), s)) :
    s.market = some m ∧ s.lastPrice = none ∧ readFlag settings = .ok s.logsBook := by
  unfold init at h
  cases hflag : readFlag settings with
  | error e =>
    rw [hflag] at h
    cases h
  | ok b =>
    rw [hflag] at h
    cases h
    exact ⟨rfl, rfl, rfl⟩

theorem readFlag_eq_true_iff {settings : Config.Strategy} : readFlag settings = .ok true ↔
    ∃ raw, settings.items.get? bookKey = some raw ∧ Text.trim raw = "true" := by
  unfold readFlag ofFlag?
  cases hraw : settings.items.get? bookKey with
  | none => simp
  | some raw =>
    by_cases htrue : Text.trim raw = "true"
    · simp [htrue]
    · by_cases hfalse : Text.trim raw = "false"
      · simp [hfalse]
      · simp [htrue, hfalse]

/-- **The market watch over whole runs.** After one initialisation that went well, and however often
it is then executed, whatever the replies are, the last price is that of the latest cycle that told
one, the order book is asked for if the settings say so and there is a price, and a cycle fails
exactly for a reply that is an API error, or a crash. Before that, each execution fails and asks
nothing. -/
theorem lastPrice_of_latest_cycle {settings : Config.Strategy} {now : Timestamp}
    (h : ((init x m settings {}).run now w).1 = (.ok (), s)) :
    (s.logsBook = true ↔
      ∃ raw, settings.items.get? bookKey = some raw ∧ Text.trim raw = "true") ∧
    (∀ cycles s', Runs x s cycles s' → Accounts m s.logsBook cycles s'.lastPrice ∧
      ∀ w : ω, ∃ r s'' w' notes,
        (execute x.noted s').MayEnd (Unrecorded ω) (w, []) (r, s'') (w', notes)) ∧
    (∀ cycles s', Runs x {} cycles s' → s' = {} ∧ ∀ c ∈ cycles,
      c.notes = [] ∧ c.result = .error (.failure "market watch executed before init")) ∧
    ∀ (t : MarketWatch) (w : ω) (r : Except StrategyFault Unit) (t' : MarketWatch) (w' : ω),
      (execute x t).MayEnd (fun _ _ => True) w (r, t') w' ↔
        ∃ notes, (execute x.noted t).MayEnd (Unrecorded ω) (w, []) (r, t') (w', notes) := by
  obtain ⟨hm, hnew, hflag⟩ := of_init h
  refine ⟨?_, fun cycles s' hruns => ⟨hruns.accounts hm hnew, exists_mayEnd x s'⟩,
    fun cycles s' hruns => hruns.of_none rfl, mayEnd_noted_iff x⟩
  rw [← readFlag_eq_true_iff, hflag, Except.ok.injEq]

end MarketWatch

/-! ## A rehearsed watch -/

namespace Rehearsed

open MarketWatch

/-- The settings ask for the order book, with blanks. -/
def bookish : Config.Strategy :=
  { id := "watch", name := "Watch", className := "market-watch"
    items := .ofList [(bookKey, " true ")] }

def bitcoin : Market := { id := "btcusd", name := "BTC/USD", base := "BTC", counter := "USD" }

def script (price : Except Fault Decimal) (book : Except Fault Unit) : Rehearsal :=
  { prices := [{ outcome := price }], books := [{ outcome := book }] }

/-- Three cycles: a price without its book, no price, and a price whose book is refused. -/
def cycles : List Cycle :=
  [⟨[.price "btcusd" (.ok (.ofNat 10)), .orderBook "btcusd" (.error (.error (.network "late")))],
      .ok ()⟩,
    ⟨[.price "btcusd" (.error (.error (.network "late")))], .ok ()⟩,
    ⟨[.price "btcusd" (.ok (.ofNat 20)), .orderBook "btcusd" (.error (.error (.api "bad key")))],
      .error (.failure "Exchange API error while watching market btcusd: bad key")⟩]

/-- The first price stays the last one. -/
theorem lastPrice_rehearsed :
    ((init (Rehearsal.exchange "Scripted") bitcoin bookish {}).run ⟨0, 0⟩ {}).1 =
      (.ok (), { market := some bitcoin, logsBook := true }) ∧
    Accounts bitcoin true cycles (some (.ofNat 10)) := by
  have hinit : ((init (Rehearsal.exchange "Scripted") bitcoin bookish {}).run ⟨0, 0⟩ {}).1 =
      (.ok (), { market := some bitcoin, logsBook := true }) := by
    decide +kernel
  have hend (s : MarketWatch) (w : Rehearsal) :=
    Program.mayEnd_run (Program.Slot.Within.refl (worldSlot Rehearsal))
      (execute (Rehearsal.exchange "Scripted").noted s) ⟨0, 0⟩ (w, [])
  have hruns : Runs (Rehearsal.exchange "Scripted") { market := some bitcoin, logsBook := true }
      cycles { market := some bitcoin, logsBook := true, lastPrice := some (.ofNat 10) } := by
    have hfirst := Runs.nil.concat (hend { market := some bitcoin, logsBook := true }
      (script (.ok (.ofNat 10)) (.error (.error (.network "late")))))
    have hsecond := hfirst.concat (hend _ (script (.error (.error (.network "late"))) (.ok ())))
    exact hsecond.concat (hend _ (script (.ok (.ofNat 20)) (.error (.error (.api "bad key")))))
  exact ⟨hinit, ((lastPrice_of_latest_cycle hinit).2.1 cycles _ hruns).1⟩

end Rehearsed

end TradingBot
