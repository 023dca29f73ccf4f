import Mathlib.Data.List.Forall2
import TradingBot.Proofs.Desk
import TradingBot.Proofs.Twins

/-!
# Paper exchanges that cannot be told apart

**Initialising** (`Paper.exists_seeding`). What an initialisation does to any exchange: it replaces
fees, funds and prices or leaves them, sets the feed or leaves it, and does no more.

**The relation** (`Paper.World.Akin`). Worlds that differ at most in how many orders the exchange
has ever issued and, if it has a feed, in the prices that it knows. The number shows nowhere but in
the identifiers that are drawn, and where there is a feed the known prices are written but never
read. Worlds of the one mode stay in it, as no call and no initialisation takes a feed away.

**Sessions** (`Paper.Session`). What users do with an exchange, in any order and at the same time,
and all that they see of it (`Paper.Seen`): what each initialisation and each call came to, and the
requests that the feed has got.

**Theorem (`Paper.seen_after_of_akin`).** No session tells akin exchanges apart. In akin worlds
every call does the same up to its next wait, and leaves akin worlds. So it is with exchanges that
differ in the number of issued orders alone (`Paper.World.Alike`).
-/

namespace TradingBot

namespace Paper

open Program (Twin)

/-! ## What an initialisation does -/

/-- The feed after an attempt: fees that cannot be read end it before the feed is set. -/
def feedAfter (c : Config.Exchange) (feed : Option Http.Client) : Option Http.Client :=
  match Fees.read c.other with
  | .error _ => feed
  | .ok _ => (feedOf c).or feed

/-- **What an attempt does to any exchange**: it replaces the fees, the available funds and the
prices or leaves them, sets the feed or leaves it, and does no more. -/
theorem exists_seeding (c : Config.Exchange) : ∃ (r : Except ApiError Unit) (fees : Option Fees)
    (available prices : Option (Dict Decimal)),
    (r = .ok () → fees.isSome ∧ available.isSome ∧ prices.isSome) ∧
      ∀ p, init c p = (r, { p with
        fees := fees.getD p.fees
        feed := feedAfter c p.feed
        available := available.getD p.available
        prices := prices.getD p.prices }) := by
  unfold init feedAfter
  cases Fees.read c.other with
  | error e => exact ⟨.error e, none, none, none, nofun, fun p => rfl⟩
  | ok fees =>
    dsimp only
    cases amounts c.other balanceKey with
    | error e => exact ⟨.error e, some fees, none, none, nofun, fun p => rfl⟩
    | ok available =>
      dsimp only
      cases amounts c.other priceKey with
      | error e => exact ⟨.error e, some fees, some available, none, nofun, fun p => rfl⟩
      | ok prices =>
        exact ⟨.ok (), some fees, some available, some prices, fun _ => ⟨rfl, rfl, rfl⟩,
          fun p => rfl⟩

theorem run_initialise (c : Config.Exchange) (now : Timestamp) (w : World) :
    (adapter.init c).run.run now w =
      ((init c w.paper).1.mapError .error, { w with paper := (init c w.paper).2 }) := by
  show (Call.ofExcept (init c w.paper).1 >>= fun _ => do
      let paper ← Call.lift look
      Call.lift (Program.tell .info "Paper exchange initialised"
        [("exchange", c.name), ("currencies", toString paper.available.size),
          ("markets", toString paper.prices.size), ("price_feed", toString paper.feed.isSome)])
      : Call World Unit).run.run now { w with paper := (init c w.paper).2 } = _
  cases (init c w.paper).1 <;> rfl

/-! ## Exchanges that cannot be told apart -/

/-- The worlds differ at most in how many orders were ever placed. -/
def World.Alike (w w' : World) : Prop :=
  w'.link = w.link ∧ ∃ issued, w'.paper = { w.paper with issued }

/-- The exchanges differ at most in how many orders were ever placed and, if they are `fed`, in the
prices that they know. -/
structure Akin (fed : Prop) (p p' : Paper) : Prop where
  available : p'.available = p.available
  orders : p'.orders = p.orders
  fees : p'.fees = p.fees
  feed : p'.feed = p.feed
  hasFeed : fed → p.feed ≠ none
  prices : ¬ fed → p'.prices = p.prices

/-- The links are equal, and the exchanges akin. -/
structure World.Akin (fed : Prop) (w w' : World) : Prop where
  link : w'.link = w.link
  paper : w.paper.Akin fed w'.paper

theorem World.Alike.akin {w w' : World} (h : w.Alike w') : w.Akin False w' := by
  obtain ⟨hlink, issued, hp⟩ := h
  exact ⟨hlink, by rw [hp]; exact ⟨rfl, rfl, rfl, rfl, False.elim, fun _ => rfl⟩⟩

namespace Akin

variable {fed : Prop} {p p' : Paper}

theorem refl (hfed : fed → p.feed ≠ none) : p.Akin fed p :=
  ⟨rfl, rfl, rfl, rfl, hfed, fun _ => rfl⟩

theorem seededPrice (h : p.Akin fed p') (hfed : ¬ fed) (marketId : String) :
    p'.seededPrice marketId = p.seededPrice marketId := by
  simp only [Paper.seededPrice, h.prices hfed]

theorem balances (h : p.Akin fed p') : p'.balances = p.balances := by
  rw [Paper.balances, Paper.balances, h.available, h.orders]

theorem openOrders (h : p.Akin fed p') (marketId : String) :
    p'.openOrders marketId = p.openOrders marketId := by
  rw [Paper.openOrders, Paper.openOrders, h.orders]

theorem buyFee (h : p.Akin fed p') : p'.buyFee = p.buyFee := by
  rw [Paper.buyFee, Paper.buyFee, h.fees]

theorem sellFee (h : p.Akin fed p') : p'.sellFee = p.sellFee := by
  rw [Paper.sellFee, Paper.sellFee, h.fees]

theorem setPrice (h : p.Akin fed p') (marketId : String) (price : Decimal) :
    (p.setPrice marketId price).Akin fed (p'.setPrice marketId price) :=
  { h with prices := fun hfed => congrArg (Dict.insert · marketId price) (h.prices hfed) }

theorem push (h : p.Akin fed p') (o : OpenOrder) : (push o p).Akin fed (push o p') :=
  { h with orders := congrArg (· ++ [o]) h.orders }

theorem cancel (h : p.Akin fed p') (id marketId : String) :
    (cancel id marketId p).1 = (cancel id marketId p').1 ∧
      (cancel id marketId p).2.Akin fed (cancel id marketId p').2 := by
  unfold Paper.cancel
  rw [h.orders]
  exact ⟨rfl, { h with orders := rfl }⟩

/-- An initialisation does the same to both, and never takes a feed away. -/
theorem init (h : p.Akin fed p') (c : Config.Exchange) : (init c p).1 = (init c p').1 ∧
    (init c p).2.Akin fed (init c p').2 := by
  obtain ⟨r, fees, available, prices, -, hinit⟩ := exists_seeding c
  have hfed : fed → feedAfter c p.feed ≠ none := fun hfed => by
    unfold feedAfter
    cases Fees.read c.other with
    | error e => exact h.hasFeed hfed
    | ok fees => exact fun hn => h.hasFeed hfed (Option.or_eq_none_iff.mp hn).2
  rw [hinit, hinit]
  exact ⟨rfl, congrArg available.getD h.available, h.orders, congrArg fees.getD h.fees,
    congrArg (feedAfter c) h.feed, hfed, fun hf => congrArg prices.getD (h.prices hf)⟩

end Akin

section

variable {α : Type} {fed : Prop}

theorem twin_look {k k' : Paper → Call World α}
    (h : ∀ p p', p.Akin fed p' → (k p).run.Twin (World.Akin fed) (k' p').run) :
    (Call.lift look >>= k).run.Twin (World.Akin fed) (Call.lift look >>= k').run :=
  .read fun w w' hw => h w.paper w'.paper hw.paper

theorem twin_modifyGet {f : Paper → α × Paper}
    (hf : ∀ p p', p.Akin fed p' → (f p).1 = (f p').1 ∧ (f p).2.Akin fed (f p').2) :
    ((Program.modifyGet f).zoom paperSlot).Twin (World.Akin fed)
      ((Program.modifyGet f).zoom paperSlot) := by
  refine .read fun w w' hw => .read fun v v' hv => ?_
  obtain ⟨hvalue, hpaper⟩ := hf _ _ hw.paper
  show Twin _ (.write { v with paper := (f w.paper).2 } (.done (f w.paper).1))
    (.write { v' with paper := (f w'.paper).2 } (.done (f w'.paper).1))
  rw [hvalue]
  exact .write ⟨hv.link, hpaper⟩ (.done _)

theorem twin_change {f : Paper → Paper} (hf : ∀ p p', p.Akin fed p' → (f p).Akin fed (f p')) :
    (change f).Twin (World.Akin fed) (change f) :=
  twin_modifyGet fun p p' hp => ⟨rfl, hf p p' hp⟩

theorem twin_link (c : Call Http.Link α) :
    (c.zoom linkSlot).run.Twin (World.Akin fed) (c.zoom linkSlot).run :=
  Program.twin_zoom (fun h => h.link.symm) (fun _ _ _ h => ⟨rfl, h.paper⟩) c.run

theorem twin_price (marketId : String) :
    (price marketId).run.Twin (World.Akin fed) (price marketId).run := by
  refine twin_look fun p p' hp => ?_
  rw [hp.feed]
  cases hf : p.feed with
  | some feed =>
    refine Call.twin_bind (twin_link _) fun last => Call.twin_bind (Call.twin_lift ?_) fun _ => ?_
    · exact twin_change fun p p' hp => hp.setPrice marketId last
    · exact Call.twin_pure last
  | none =>
    -- Without a feed the prices are equal, and they are at the second look too.
    have hfed : ¬ fed := fun hfed => hp.hasFeed hfed hf
    refine twin_look fun p p' hp => ?_
    rw [hp.seededPrice hfed]
    exact Call.twin_ofExcept (p.seededPrice marketId)

theorem twin_orderBook (marketId : String) :
    (orderBook marketId).run.Twin (World.Akin fed) (orderBook marketId).run :=
  Call.twin_bind (twin_price marketId) fun price => Call.twin_compute (bookAround marketId price)

theorem twin_ticker (marketId : String) :
    (ticker marketId).run.Twin (World.Akin fed) (ticker marketId).run := by
  refine Call.twin_bind (twin_orderBook marketId) fun book => ?_
  refine Call.twin_bind (twin_price marketId) fun last => ?_
  refine Call.twin_bind (Call.twin_lift (.clock fun t => .done t)) fun t => ?_
  exact Call.twin_pure _

/-- **No query tells akin exchanges apart.** -/
theorem Query.twin (q : Query) : q.call.run.Twin (World.Akin fed) q.call.run := by
  cases q with
  | price m => exact Call.twin_bind (twin_price m) fun _ => Call.twin_pure _
  | orderBook m => exact Call.twin_bind (twin_orderBook m) fun _ => Call.twin_pure _
  | ticker m => exact Call.twin_bind (twin_ticker m) fun _ => Call.twin_pure _
  | balances =>
    refine Call.twin_bind (twin_look fun p p' hp => ?_) fun _ => Call.twin_pure _
    rw [hp.balances]
    exact Call.twin_compute p.balances
  | buyFee m =>
    refine Call.twin_bind (twin_look fun p p' hp => ?_) fun _ => Call.twin_pure _
    rw [hp.buyFee]
    exact Call.twin_pure p.buyFee
  | sellFee m =>
    refine Call.twin_bind (twin_look fun p p' hp => ?_) fun _ => Call.twin_pure _
    rw [hp.sellFee]
    exact Call.twin_pure p.sellFee
  | setPrice m amount =>
    refine Call.twin_bind (Call.twin_lift ?_) fun _ => Call.twin_pure _
    exact twin_change fun p p' hp => hp.setPrice m amount

theorem twin_enter (id : String) (t : Ticket) :
    (enter id t).run.Twin (World.Akin fed) (enter id t).run := by
  refine Call.twin_bind (Call.twin_lift (.clock fun now => .done now)) fun now => ?_
  refine Call.twin_bind (Call.twin_compute (orderOf t id now)) fun order => ?_
  refine Call.twin_bind (Call.twin_lift (.log _ (.done ()))) fun _ => ?_
  refine Call.twin_bind (Call.twin_lift (twin_change fun p p' hp => ?_)) fun _ => ?_
  · exact hp.push order
  · exact Call.twin_pure id

theorem twin_cancelOrder (id marketId : String) :
    (cancelOrder id marketId).run.Twin (World.Akin fed) (cancelOrder id marketId).run := by
  refine Call.twin_bind (Call.twin_lift (twin_modifyGet fun p p' hp => ?_)) fun cancelled => ?_
  · exact hp.cancel id marketId
  · exact Call.twin_bind (Call.twin_lift (.log _ (.done ()))) fun _ => Call.twin_pure cancelled

theorem twin_openOrders (marketId : String) :
    (exchange.openOrders marketId).run.Twin (World.Akin fed) (exchange.openOrders marketId).run :=
  twin_look fun p p' hp => by
    rw [hp.openOrders]
    exact Call.twin_pure (p.openOrders marketId)

end

/-! ## Desks that cannot be told apart -/

section

variable {fed : Prop}

/-- The calls have come equally far. -/
inductive Stage.Twin (fed : Prop) : Stage → Stage → Prop
  | lookingUp {t : Ticket} {ht : Acceptable t} {p p' : Program World (Except Fault Decimal)} :
      p.Twin (World.Akin fed) p' → Twin fed (.lookingUp t ht p) (.lookingUp t ht p')
  | asking {q : Query} {p p' : Program World (Except Fault Answer)} :
      p.Twin (World.Akin fed) p' → Twin fed (.asking q p) (.asking q p')
  | ready (t : Ticket) (ht : Acceptable t) : Twin fed (.ready t ht) (.ready t ht)
  | placed (t : Ticket) (r : Except Fault String) : Twin fed (.placed t r) (.placed t r)
  | cancelled (id marketId : String) (r : Except Fault Bool) :
      Twin fed (.cancelled id marketId r) (.cancelled id marketId r)
  | listed (marketId : String) (r : Except Fault (List OpenOrder)) :
      Twin fed (.listed marketId r) (.listed marketId r)
  | answered (q : Query) (r : Except Fault Answer) : Twin fed (.answered q r) (.answered q r)

theorem Stage.twin_ofTicket (t : Ticket) : (Stage.ofTicket t).Twin fed (Stage.ofTicket t) := by
  unfold Stage.ofTicket
  by_cases ht : Acceptable t
  · rw [dif_pos ht]
    exact .lookingUp (twin_price t.marketId)
  · rw [dif_neg ht]
    exact .placed t _

theorem Stage.twin_ofLookUp (t : Ticket) (ht : Acceptable t)
    {r r' : Except Fault Decimal ⊕ Nat × Program World (Except Fault Decimal)}
    (h : Program.TwinRest (World.Akin fed) r r') :
    (Stage.ofLookUp t ht r).Twin fed (Stage.ofLookUp t ht r') := by
  cases h with
  | inl h =>
    subst h
    rename_i r
    cases r with
    | ok price => exact .ready t ht
    | error f => exact .placed t _
  | inr h => exact .lookingUp h.2

theorem Stage.twin_ofQuery (q : Query)
    {r r' : Except Fault Answer ⊕ Nat × Program World (Except Fault Answer)}
    (h : Program.TwinRest (World.Akin fed) r r') :
    (Stage.ofQuery q r).Twin fed (Stage.ofQuery q r') := by
  cases h with
  | inl h =>
    subst h
    exact .answered q _
  | inr h => exact .asking h.2

end

theorem rel_getElem? {α : Type} {R : α → α → Prop} {l l' : List α} (h : List.Forall₂ R l l')
    (k : Nat) : Option.Rel R l[k]? l'[k]? := by
  induction h generalizing k with
  | nil => exact .none
  | cons hab _ ih =>
    cases k with
    | zero => exact .some hab
    | succ k => exact ih k

theorem forall₂_set {α : Type} {R : α → α → Prop} {l l' : List α} (h : List.Forall₂ R l l')
    (k : Nat) {a b : α} (hab : R a b) : List.Forall₂ R (l.set k a) (l'.set k b) := by
  induction h generalizing k with
  | nil => exact .nil
  | cons hcd hl ih =>
    cases k with
    | zero => exact .cons hab hl
    | succ k => exact .cons hcd (ih k)

namespace Desk

/-- The desks are at akin exchanges, and their calls have come equally far. -/
structure Twin (fed : Prop) (d d' : Desk) : Prop where
  world : d.world.Akin fed d'.world
  calls : List.Forall₂ (Stage.Twin fed) d.calls d'.calls

variable {fed : Prop} {d d' : Desk}

theorem Twin.add (h : d.Twin fed d') {w w' : World} (hw : w.Akin fed w') {s s' : Stage}
    (hs : s.Twin fed s') : Twin fed { world := w, calls := d.calls ++ [s] }
      { world := w', calls := d'.calls ++ [s'] } :=
  ⟨hw, List.rel_append h.calls (.cons hs .nil)⟩

theorem Twin.becomes (h : d.Twin fed d') (k : Nat) {w w' : World} (hw : w.Akin fed w')
    {s s' : Stage} (hs : s.Twin fed s') : (d.becomes k w s).Twin fed (d'.becomes k w' s') :=
  ⟨hw, forall₂_set h.calls k hs⟩

theorem Twin.goOn (h : d.Twin fed d') (k : Nat) (now : Timestamp) :
    (d.goOn k now).Twin fed (d'.goOn k now) := by
  have hk := rel_getElem? h.calls k
  unfold Desk.goOn
  generalize d.calls[k]? = s, d'.calls[k]? = s' at hk ⊢
  cases hk with
  | none => exact h
  | some hs =>
    cases hs with
    | lookingUp hp =>
      obtain ⟨hrest, hworld⟩ := hp.resume h.world now
      exact h.becomes k hworld (Stage.twin_ofLookUp _ _ hrest)
    | asking hp =>
      obtain ⟨hrest, hworld⟩ := hp.resume h.world now
      exact h.becomes k hworld (Stage.twin_ofQuery _ hrest)
    | ready | placed | cancelled | listed | answered => exact h

theorem Twin.enter (h : d.Twin fed d') (k : Nat) (id : String) (now : Timestamp) :
    (d.enter k id now).Twin fed (d'.enter k id now) := by
  have hk := rel_getElem? h.calls k
  unfold Desk.enter
  generalize d.calls[k]? = s, d'.calls[k]? = s' at hk ⊢
  cases hk with
  | none => exact h
  | some hs =>
    cases hs with
    | ready t ht =>
      obtain ⟨hreply, hworld⟩ := (twin_enter id t).run h.world now
      dsimp only
      rw [← hreply]
      exact h.becomes k hworld (.placed t _)
    | lookingUp | asking | placed | cancelled | listed | answered => exact h

/-- **No act tells the desks apart.** -/
theorem Twin.act (h : d.Twin fed d') (a : Act) : (d.act a).Twin fed (d'.act a) := by
  cases a with
  | place t => exact h.add h.world (Stage.twin_ofTicket t)
  | ask q => exact h.add h.world (.asking q.twin)
  | goOn k now => exact h.goOn k now
  | enter k id now => exact h.enter k id now
  | cancel id m now =>
    obtain ⟨hreply, hworld⟩ := (twin_cancelOrder id m).run h.world now
    exact h.add hworld (hreply ▸ .cancelled id m _)
  | list m now =>
    obtain ⟨hreply, hworld⟩ := (twin_openOrders m).run h.world now
    exact h.add hworld (hreply ▸ .listed m _)
  | relink link => exact ⟨⟨rfl, h.world.paper⟩, h.calls⟩

end Desk

/-! ## Sessions -/

inductive Use where
  | act (a : Act)
  /-- It is initialised once more. -/
  | init (c : Config.Exchange) (now : Timestamp)

inductive Told where
  | placed (r : Except Fault String)
  | cancelled (r : Except Fault Bool)
  | listed (r : Except Fault (List OpenOrder))
  | answered (r : Except Fault Answer)

def Stage.told? : Stage → Option Told
  | .lookingUp _ _ _ | .ready _ _ | .asking _ _ => none
  | .placed _ r => some (.placed r)
  | .cancelled _ _ r => some (.cancelled r)
  | .listed _ r => some (.listed r)
  | .answered _ r => some (.answered r)

theorem Stage.told_of_twin {calls calls' : List Stage} {fed : Prop}
    (h : List.Forall₂ (Stage.Twin fed) calls calls') :
    calls.map Stage.told? = calls'.map Stage.told? := by
  induction h with
  | nil => rfl
  | cons hstage _ ih =>
    rw [List.map_cons, List.map_cons, ih]
    cases hstage <;> rfl

/-- All that a user sees of an exchange: what each initialisation and each call came to, and the
requests that its feed has got. -/
structure Seen where
  inits : List (Except Fault Unit)
  calls : List (Option Told)
  requests : List Http.Request

/-- A desk, and what the initialisations since it was opened came to. -/
structure Session where
  desk : Desk
  inits : List (Except Fault Unit) := []

namespace Session

def start (w : World) : Session := { desk := { world := w } }

def use (s : Session) : Use → Session
  | .act a => { s with desk := s.desk.act a }
  | .init c now =>
    let (r, w) := (adapter.init c).run.run now s.desk.world
    { desk := { s.desk with world := w }, inits := s.inits ++ [r] }

def after (s : Session) (uses : List Use) : Session := uses.foldl use s

def seen (s : Session) : Seen where
  inits := s.inits
  calls := s.desk.calls.map Stage.told?
  requests := s.desk.world.link.requests

/-- The sessions are at desks that cannot be told apart. -/
structure Twin (fed : Prop) (s s' : Session) : Prop where
  desk : s.desk.Twin fed s'.desk
  inits : s'.inits = s.inits

variable {fed : Prop} {s s' : Session}

theorem Twin.use (h : s.Twin fed s') (u : Use) : (s.use u).Twin fed (s'.use u) := by
  cases u with
  | act a => exact ⟨h.desk.act a, h.inits⟩
  | init c now =>
    obtain ⟨hresult, hpaper⟩ := h.desk.world.paper.init c
    rw [Session.use, Session.use]
    dsimp only
    rw [run_initialise, run_initialise, hresult, h.inits]
    exact ⟨⟨⟨h.desk.world.link, hpaper⟩, h.desk.calls⟩, rfl⟩

theorem Twin.after (h : s.Twin fed s') (uses : List Use) :
    (s.after uses).Twin fed (s'.after uses) := by
  induction uses generalizing s s' with
  | nil => exact h
  | cons u uses ih => exact ih (h.use u)

theorem Twin.seen (h : s.Twin fed s') : s.seen = s'.seen := by
  rw [Session.seen, Session.seen, Stage.told_of_twin h.desk.calls, h.inits, h.desk.world.link]

end Session

/-- **No session tells akin exchanges apart.** -/
theorem seen_after_of_akin {fed : Prop} {w w' : World} (h : w.Akin fed w') (uses : List Use) :
    ((Session.start w).after uses).seen = ((Session.start w').after uses).seen := by
  have hstart : (Session.start w).Twin fed (Session.start w') := ⟨⟨h, .nil⟩, rfl⟩
  exact (hstart.after uses).seen

theorem seen_after_of_alike {w w' : World} (h : w.Alike w') (uses : List Use) :
    ((Session.start w).after uses).seen = ((Session.start w').after uses).seen :=
  seen_after_of_akin h.akin uses

end Paper

end TradingBot
