import TradingBot.Paper
import TradingBot.Proofs.Frames

/-!
# Many callers at one paper exchange

**Placing in two steps** (`place_eq`). An order is placed by looking up the price of its market,
which may wait for the feed, and then by entering it, which is one step. The identifier is drawn in
between.

**The desk** (`Desk`). An exchange and all the calls that were made to it, each with how far it has
come. A call that waits lets the others go on; a withdrawal and a list of open orders are one step.
`Act` is what can happen at one moment, so an endless sequence of acts is an order in which any
number of callers take their turns.

**The rules** (`Desk.Deals`). What one act does to the orders and to the calls, with what an
observer of the orders sees (`Deed`): only entering and withdrawing change them.
-/

namespace TradingBot.Paper

/-! ## Placing an order in two steps -/

/-- Why a ticket is not accepted. -/
def refusal (t : Ticket) : ApiError :=
  .api s!"Order quantity and price must be positive, got {t.quantity.render} @ {t.price.render}"

/-- Enters the order of a ticket under an identifier. -/
def enter (id : String) (t : Ticket) : Call World String := do
  let order ← Call.compute (orderOf t id (← Call.lift Program.now))
  Call.lift (Program.tell .info "[PAPER] Order placed"
    [("order_id", id), ("market", t.marketId), ("side", t.side.text),
      ("quantity", t.quantity.render), ("price", t.price.render)])
  Call.lift (change (push order))
  return id

/-- **An order is placed in two steps**, with its identifier drawn in between. -/
theorem place_eq (t : Ticket) :
    place t =
      if Acceptable t then do
        let _ ← price t.marketId
        enter (orderId ((← Call.lift look).issued + 1)) t
      else Call.fail (refusal t) := by
  by_cases h : Acceptable t
  · rw [place, if_pos h, if_pos h]
    rfl
  · rw [place, if_neg h, if_neg h]
    rfl

theorem run_enter (id : String) (t : Ticket) (now : Timestamp) (w : World) :
    (enter id t).run.run now w =
      match orderOf t id now with
      | .ok o => (.ok id, { w with paper := push o w.paper })
      | .error c => (.error (.crash c), w) := by
  show ((Call.compute (orderOf t id now) >>= fun order => do
      Call.lift (Program.tell .info "[PAPER] Order placed"
        [("order_id", id), ("market", t.marketId), ("side", t.side.text),
          ("quantity", t.quantity.render), ("price", t.price.render)])
      Call.lift (change (push order))
      return id : Call World String)).run.run now w = _
  cases orderOf t id now with
  | ok o => rfl
  | error c => rfl

theorem run_cancelOrder (id marketId : String) (now : Timestamp) (w : World) :
    (cancelOrder id marketId).run.run now w =
      (.ok (cancel id marketId w.paper).1, { w with paper := (cancel id marketId w.paper).2 }) :=
  rfl

/-! ## Calls that leave the orders alone -/

/-- A call that is neither about placing, nor withdrawing, nor listing orders. -/
inductive Query where
  | price (marketId : String)
  | orderBook (marketId : String)
  | ticker (marketId : String)
  | balances
  | buyFee (marketId : String)
  | sellFee (marketId : String)
  | setPrice (marketId : String) (price : Decimal)

inductive Answer where
  | amount (d : Decimal)
  | orderBook (b : OrderBook)
  | ticker (t : Ticker)
  | balances (b : Balances)
  | done

def Query.call : Query → Call World Answer
  | .price m => do return .amount (← exchange.price m)
  | .orderBook m => do return .orderBook (← exchange.orderBook m)
  | .ticker m => do return .ticker (← exchange.ticker m)
  | .balances => do return .balances (← exchange.balances)
  | .buyFee m => do return .amount (← exchange.buyFee m)
  | .sellFee m => do return .amount (← exchange.sellFee m)
  | .setPrice m amount => do
    Call.lift (change (Paper.setPrice m amount))
    return .done

def books (p : Paper) : List OpenOrder × Nat := (p.orders, p.issued)

def World.books (w : World) : List OpenOrder × Nat := w.paper.books

/-- A part of the world that a look at a price leaves alone. -/
structure Apart {γ : Type} (part : World → γ) : Prop where
  link : ∀ link w, part (linkSlot.set link w) = part w
  setPrice : ∀ m amount w, part (paperSlot.set (w.paper.setPrice m amount) w) = part w

theorem apart_books : Apart World.books := ⟨fun _ _ => rfl, fun _ _ _ => rfl⟩

section

variable {γ : Type} {part : World → γ}

theorem leaves_look (w : World) : look.Leaves part w := .read (.done _ w)

theorem leaves_change {f : Paper → Paper} {w : World}
    (hf : part (paperSlot.set (f w.paper) w) = part w) : (change f).Leaves part w :=
  .read (.read (.write hf (.done _ _)))

theorem leaves_price (hp : Apart part) (marketId : String) (w : World) :
    (price marketId).run.Leaves part w := by
  refine Call.leaves_bind (Call.leaves_lift (leaves_look w)) fun p w => ?_
  split
  · refine Call.leaves_bind (Call.leaves_zoom hp.link _ w) fun last w => ?_
    have hset := leaves_change (hp.setPrice marketId last w)
    exact Call.leaves_bind (Call.leaves_lift hset) fun _ => Call.leaves_pure last
  · refine Call.leaves_bind (Call.leaves_lift (leaves_look w)) fun p w => ?_
    exact Call.leaves_ofExcept _ w

theorem leaves_orderBook (hp : Apart part) (marketId : String) (w : World) :
    (orderBook marketId).run.Leaves part w :=
  Call.leaves_bind (leaves_price hp marketId w) fun _ w => Call.leaves_compute _ w

theorem leaves_ticker (hp : Apart part) (marketId : String) (w : World) :
    (ticker marketId).run.Leaves part w := by
  refine Call.leaves_bind (leaves_orderBook hp marketId w) fun book w => ?_
  refine Call.leaves_bind (leaves_price hp marketId w) fun last w => ?_
  have hclock : Program.now.Leaves part w := .clock fun t => .done t w
  exact Call.leaves_bind (Call.leaves_lift hclock) fun _ w => Call.leaves_pure _ w

theorem Query.leaves (hp : Apart part) (q : Query) (w : World) : q.call.run.Leaves part w := by
  have hlook {α : Type} (f : Paper → Call World α) (hf : ∀ p w, (f p).run.Leaves part w) :
      (Call.lift look >>= f).run.Leaves part w :=
    Call.leaves_bind (Call.leaves_lift (leaves_look w)) hf
  have hpure {α : Type} (a : α) (w : World) : (pure a : Call World α).run.Leaves part w :=
    Call.leaves_pure a w
  cases q with
  | price m => exact Call.leaves_bind (leaves_price hp m w) fun _ => hpure _
  | orderBook m => exact Call.leaves_bind (leaves_orderBook hp m w) fun _ => hpure _
  | ticker m => exact Call.leaves_bind (leaves_ticker hp m w) fun _ => hpure _
  | balances =>
    exact Call.leaves_bind (hlook _ fun _ => Call.leaves_compute _) fun _ => hpure _
  | buyFee | sellFee => exact Call.leaves_bind (hlook _ fun _ => hpure _) fun _ => hpure _
  | setPrice m amount =>
    have hset := leaves_change (hp.setPrice m amount w)
    exact Call.leaves_bind (Call.leaves_lift hset) fun _ => hpure _

end

/-! ## The desk -/

/-- How far a call has come. -/
inductive Stage where
  /-- An order is to be placed, and the price of its market is being looked up. -/
  | lookingUp (t : Ticket) (ht : Acceptable t) (rest : Program World (Except Fault Decimal))
  /-- There is a price, and the order can be entered. -/
  | ready (t : Ticket) (ht : Acceptable t)
  | placed (t : Ticket) (r : Except Fault String)
  | cancelled (id marketId : String) (r : Except Fault Bool)
  | listed (marketId : String) (r : Except Fault (List OpenOrder))
  | asking (q : Query) (rest : Program World (Except Fault Answer))
  | answered (q : Query) (r : Except Fault Answer)

/-- How far a call comes at once that is to place an order. -/
def Stage.ofTicket (t : Ticket) : Stage :=
  if h : Acceptable t then .lookingUp t h (price t.marketId).run
  else .placed t (.error (.error (refusal t)))

/-- How far a price lookup has come after a turn. -/
def Stage.ofLookUp (t : Ticket) (ht : Acceptable t) :
    Except Fault Decimal ⊕ Nat × Program World (Except Fault Decimal) → Stage
  | .inl (.ok _) => .ready t ht
  | .inl (.error f) => .placed t (.error f)
  | .inr (_, rest) => .lookingUp t ht rest

/-- How far a query has come after a turn. -/
def Stage.ofQuery (q : Query) :
    Except Fault Answer ⊕ Nat × Program World (Except Fault Answer) → Stage
  | .inl r => .answered q r
  | .inr (_, rest) => .asking q rest

/-- What can happen at one moment. Calls are given by their number. -/
inductive Act where
  /-- Someone begins to place an order. -/
  | place (t : Ticket)
  | ask (q : Query)
  /-- A price lookup or a query goes on to its end or to its next wait. -/
  | goOn (k : Nat) (now : Timestamp)
  /-- An identifier is drawn, and the order of a call is entered under it. -/
  | enter (k : Nat) (id : String) (now : Timestamp)
  | cancel (id marketId : String) (now : Timestamp)
  | list (marketId : String) (now : Timestamp)
  /-- The link to the feed changes by itself. -/
  | relink (link : Http.Link)

/-- An exchange and the calls made to it, in the order in which they were made. -/
structure Desk where
  world : World
  calls : List Stage := []

namespace Desk

/-- A desk at an exchange that has just been set up. -/
def opened (c : Config.Exchange) (w : World) (now : Timestamp) : Desk :=
  { world := ((adapter.init c).run.run now (adapter.fresh w)).2 }

def orders (d : Desk) : List OpenOrder := d.world.paper.orders

/-- The desk when the call with a number has come to a stage. -/
def becomes (k : Nat) (w : World) (s : Stage) (d : Desk) : Desk :=
  { world := w, calls := d.calls.set k s }

def goOn (k : Nat) (now : Timestamp) (d : Desk) : Desk :=
  match d.calls[k]? with
  | some (.lookingUp t ht p) =>
    let turn := p.resume now d.world
    d.becomes k turn.world (.ofLookUp t ht turn.rest)
  | some (.asking q p) =>
    let turn := p.resume now d.world
    d.becomes k turn.world (.ofQuery q turn.rest)
  | _ => d

def enter (k : Nat) (id : String) (now : Timestamp) (d : Desk) : Desk :=
  match d.calls[k]? with
  | some (.ready t _) =>
    let (r, w) := (Paper.enter id t).run.run now d.world
    d.becomes k w (.placed t r)
  | _ => d

def act (d : Desk) : Act → Desk
  | .place t => { d with calls := d.calls ++ [.ofTicket t] }
  | .ask q => { d with calls := d.calls ++ [.asking q q.call.run] }
  | .goOn k now => d.goOn k now
  | .enter k id now => d.enter k id now
  | .cancel id m now =>
    let (r, w) := (exchange.cancel id m).run.run now d.world
    { world := w, calls := d.calls ++ [.cancelled id m r] }
  | .list m now =>
    let (r, w) := (exchange.openOrders m).run.run now d.world
    { world := w, calls := d.calls ++ [.listed m r] }
  | .relink link => { d with world := { d.world with link } }

def after (d : Desk) (σ : Nat → Act) : Nat → Desk
  | 0 => d
  | n + 1 => (d.after σ n).act (σ n)

end Desk

/-- What an observer of the orders sees. -/
inductive Deed where
  /-- The call with a number has entered an order. -/
  | entered (k : Nat) (o : OpenOrder)
  /-- Someone has withdrawn what has this identifier in this market. -/
  | withdrew (id marketId : String)

namespace Desk

def entering (k : Nat) (id : String) (now : Timestamp) (d : Desk) : List Deed :=
  match d.calls[k]? with
  | some (.ready t _) =>
    match orderOf t id now with
    | .ok o => [.entered k o]
    | .error _ => []
  | _ => []

/-- What is seen of an act. -/
def shown (d : Desk) : Act → List Deed
  | .enter k id now => d.entering k id now
  | .cancel id m _ => [.withdrew id m]
  | _ => []

def history (d : Desk) (σ : Nat → Act) : Nat → List Deed
  | 0 => []
  | n + 1 => d.history σ n ++ (d.after σ n).shown (σ n)

end Desk

/-! ## What one act does -/

/-- What is left of the call leaves the orders alone. -/
def Stage.Leaves : Stage → Prop
  | .lookingUp _ _ rest => ∀ w, rest.Leaves World.books w
  | .asking _ rest => ∀ w, rest.Leaves World.books w
  | .ready _ _ | .placed _ _ | .cancelled _ _ _ | .listed _ _ | .answered _ _ => True

/-- The call has withdrawn an order, or has placed one. -/
inductive Stage.Succeeds : Stage → Prop
  | cancelled (id marketId : String) : Succeeds (.cancelled id marketId (.ok true))
  | placed (t : Ticket) (id : String) : Succeeds (.placed t (.ok id))

namespace Desk

/-- What an act does, with what is seen of it. -/
inductive Deals (d : Desk) : Act → List Deed → Desk → Prop
  | begins {a : Act} {s : Stage} : s.Leaves → ¬ s.Succeeds →
      Deals d a [] { d with calls := d.calls ++ [s] }
  | relinks (link : Http.Link) : Deals d (.relink link) [] { d with world := { d.world with link } }
  | holds {a : Act} : Deals d a [] d
  | goesOn {k : Nat} {now : Timestamp} {s s' : Stage} {w : World} : d.calls[k]? = some s →
      ¬ s.Succeeds → s'.Leaves → ¬ s'.Succeeds → w.books = d.world.books →
      Deals d (.goOn k now) [] (d.becomes k w s')
  | enters {k : Nat} {id : String} {now : Timestamp} {t : Ticket} {ht : Acceptable t}
      {o : OpenOrder} : d.calls[k]? = some (.ready t ht) → orderOf t id now = .ok o →
      Deals d (.enter k id now) [.entered k o]
        (d.becomes k { d.world with paper := push o d.world.paper } (.placed t (.ok id)))
  | overflows {k : Nat} {id : String} {now : Timestamp} {t : Ticket} {ht : Acceptable t}
      {c : Crash} : d.calls[k]? = some (.ready t ht) → orderOf t id now = .error c →
      Deals d (.enter k id now) [] (d.becomes k d.world (.placed t (.error (.crash c))))
  | cancels (id m : String) (now : Timestamp) :
      Deals d (.cancel id m now) [.withdrew id m]
        { world := { d.world with paper := (cancel id m d.world.paper).2 }
          calls := d.calls ++ [.cancelled id m (.ok (cancel id m d.world.paper).1)] }
  | lists (m : String) (now : Timestamp) :
      Deals d (.list m now) []
        { d with calls := d.calls ++ [.listed m (.ok (d.world.paper.openOrders m))] }

theorem deals_goOn {d : Desk} (hl : ∀ s ∈ d.calls, s.Leaves) (k : Nat) (now : Timestamp) :
    Deals d (.goOn k now) [] (d.goOn k now) := by
  unfold goOn
  split
  · next t ht p hk =>
    obtain ⟨hw, hrest⟩ := (hl _ (List.mem_of_getElem? hk) d.world).resume now
    refine .goesOn hk nofun ?_ ?_ hw
    · match h : (p.resume now d.world).rest with
      | .inl (.ok _) | .inl (.error _) => trivial
      | .inr (ms, q) => exact hrest ms q h
    · match (p.resume now d.world).rest with
      | .inl (.ok _) | .inl (.error _) | .inr _ => exact nofun
  -- A query, by the same two cases as a placing.
  · next q p hk =>
    obtain ⟨hw, hrest⟩ := (hl _ (List.mem_of_getElem? hk) d.world).resume now
    refine .goesOn hk nofun ?_ ?_ hw
    · match h : (p.resume now d.world).rest with
      | .inl _ => trivial
      | .inr (ms, q) => exact hrest ms q h
    · match (p.resume now d.world).rest with
      | .inl _ | .inr _ => exact nofun
  · exact .holds

theorem deals_enter (d : Desk) (k : Nat) (id : String) (now : Timestamp) :
    Deals d (.enter k id now) (d.entering k id now) (d.enter k id now) := by
  unfold enter entering
  split
  · next t ht hk =>
    rw [run_enter]
    cases ho : orderOf t id now with
    | ok o => exact .enters hk ho
    | error c => exact .overflows hk ho
  · exact .holds

/-- **Every act follows a rule**, with what is seen of it. -/
theorem act_deals {d : Desk} (hl : ∀ s ∈ d.calls, s.Leaves) (a : Act) :
    Deals d a (d.shown a) (d.act a) := by
  cases a with
  | place t =>
    refine .begins ?_ ?_
    · unfold Stage.ofTicket
      split
      · exact leaves_price apart_books _
      · trivial
    · unfold Stage.ofTicket
      split <;> exact nofun
  | ask q => exact .begins (q.leaves apart_books) nofun
  | goOn k now => exact deals_goOn hl k now
  | enter k id now => exact d.deals_enter k id now
  | cancel id m now => exact .cancels id m now
  | list m now => exact .lists m now
  | relink link => exact .relinks link

end Desk

end TradingBot.Paper
