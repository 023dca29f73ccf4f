import TradingBot.Proofs.Placing

/-!
# What the users of a paper exchange are told

**Vouching** (`Paper.Vouches`). A program comes to results of one kind and keeps a condition on the
world, as long as others keep that condition while the program waits. A call vouches for what its
parts do.

**Many callers** (`Paper.Desk.Vouched`). If every query that is asked at a desk vouches for its
results, and everything else that happens there keeps the condition, then every answer is of its
kind at all times (`Paper.Desk.Vouched.after`).

**Prices of a kind** (`Paper.Keeps`). Where all prices that a look can find are of a kind, books and
tickers are made of such prices alone (`Paper.Quoted`).

**Answers that are given** (`Paper.Desk.exists_answered`). What a query comes to when it is carried
to its end at one moment is an answer at a desk where nobody else does anything.
-/

namespace TradingBot

/-! ## Programs that are taken up again -/

namespace Program

variable {ω α : Type} {now : Timestamp}

/-- Taken up again at one moment until it ends, and left alone in between, the program comes to a
value and a world. -/
inductive Settles (now : Timestamp) : Program ω α → ω → α → ω → Prop
  | ends {p : Program ω α} {w : ω} {a : α} : (p.resume now w).rest = .inl a →
      Settles now p w a (p.resume now w).world
  | goesOn {p q : Program ω α} {w w' : ω} {ms : Nat} {a : α} :
      (p.resume now w).rest = .inr (ms, q) → Settles now q (p.resume now w).world a w' →
      Settles now p w a w'

/-- A program that does the same up to its next wait settles in the same way. -/
theorem Settles.congr {p p' : Program ω α} {w w₁ w' : ω} {a : α} (h : Settles now p' w₁ a w')
    (hrest : (p.resume now w).rest = (p'.resume now w₁).rest)
    (hworld : (p.resume now w).world = (p'.resume now w₁).world) : Settles now p w a w' := by
  cases h with
  | ends he => exact hworld ▸ .ends (hrest.trans he)
  | goesOn he hq => exact .goesOn (hrest.trans he) (hworld ▸ hq)

/-- **Turn by turn, a program comes to what it is run to.** -/
theorem settles_run (now : Timestamp) (p : Program ω α) (w : ω) :
    Settles now p w (p.run now w).1 (p.run now w).2 := by
  induction p generalizing w with
  | done a => exact .ends rfl
  | read next ih => exact (ih w w).congr rfl rfl
  | write w' next ih => exact (ih w').congr rfl rfl
  | wait ms next ih =>
    cases ms with
    | zero => exact (ih w).congr rfl rfl
    | succ ms => exact .goesOn rfl (ih w)
  | clock next ih => exact (ih now w).congr rfl rfl
  | requestStop next ih => exact (ih w).congr rfl rfl
  | log line next ih => exact (ih w).congr rfl rfl

end Program

namespace Paper

/-! ## Vouching -/

/-- The program keeps a condition on worlds, if others do while it waits, and comes to a result of
a kind. -/
def Vouches {α : Type} (I : World → Prop) (P : α → Prop) (p : Program World α) : Prop :=
  ∀ t w, I w → p.Ensures asks I (fun _ a w' => I w' ∧ P a) t w

/-- If there is a value, it is of a kind. -/
def GivesOnly {α : Type} (P : α → Prop) (r : Except Fault α) : Prop := ∀ a, r = .ok a → P a

section

variable {α β : Type} {I : World → Prop}

theorem givesOnly_error {P : α → Prop} (f : Fault) : GivesOnly P (.error f) := nofun

theorem givesOnly_ok {P : α → Prop} {a : α} (ha : P a) : GivesOnly P (.ok a) := by
  intro a' h
  cases h
  exact ha

theorem GivesOnly.map {P : α → Prop} {R : β → Prop} {r : Except Fault α} {f : α → β}
    (h : GivesOnly P r) (hf : ∀ a, P a → R (f a)) : GivesOnly R (r.map f) := by
  cases r with
  | ok a => exact givesOnly_ok (hf a (h a rfl))
  | error e => exact givesOnly_error e

theorem Vouches.mono {P P' : α → Prop} {p : Program World α} (h : Vouches I P p)
    (hP : ∀ a, P a → P' a) : Vouches I P' p :=
  fun t w hw => (h t w hw).mono fun _ a _ ha => ⟨ha.1, hP a ha.2⟩

/-- A turn ends with a result of the kind, or leaves a program that vouches for it too. -/
theorem Vouches.resume {P : α → Prop} {p : Program World α} (h : Vouches I P p) {w : World}
    (hw : I w) (now : Timestamp) : I (p.resume now w).world ∧
      (∀ a, (p.resume now w).rest = .inl a → P a) ∧
      ∀ ms q, (p.resume now w).rest = .inr (ms, q) → Vouches I P q := by
  obtain ⟨-, hends, hwaits⟩ := (h [] w hw).resume now
  refine ⟨?_, fun a ha => (hends a ha).2, fun ms q hq t w' hw' => ?_⟩
  · match hrest : (p.resume now w).rest with
    | .inl a => exact (hends a hrest).1
    | .inr (ms, q) => exact (hwaits ms q hrest).1
  · exact ((hwaits ms q hq).2 w' hw').forget t

theorem vouches_bind {P : α → Prop} {R : β → Prop} {c : Call World α} {k : α → Call World β}
    (hc : Vouches I (GivesOnly P) c.run) (hk : ∀ a, P a → Vouches I (GivesOnly R) (k a).run) :
    Vouches I (GivesOnly R) (c >>= k).run := by
  intro t w hw
  rw [Call.ensures_bind]
  refine (hc t w hw).mono fun t' r w' hr => ?_
  cases r with
  | ok a => exact hk a (hr.2 a rfl) t' w' hr.1
  | error f => exact ⟨hr.1, givesOnly_error f⟩

theorem vouches_pure {P : Except Fault α → Prop} {a : α} (ha : P (.ok a)) :
    Vouches I P (pure a : Call World α).run :=
  fun _ _ hw => Call.ensures_pure.mpr ⟨hw, ha⟩

theorem vouches_compute {P : Except Fault α → Prop} {r : Except Crash α}
    (hr : P (r.mapError .crash)) : Vouches I P (Call.compute r : Call World α).run :=
  fun _ _ hw => Call.ensures_compute.mpr ⟨hw, hr⟩

theorem vouches_look {P : Except Fault α → Prop} {k : Paper → Call World α}
    (hk : ∀ w, I w → Vouches I P (k w.paper).run) : Vouches I P (Call.lift look >>= k).run :=
  fun t w hw => ensures_look.mpr (hk w hw t w hw)

theorem vouches_answering {P : Except Fault Answer → Prop} {c : Call World α} {k : α → Answer}
    (hc : Vouches I (fun r => P (r.map k)) c.run) :
    Vouches I P (do return k (← c) : Call World Answer).run :=
  fun t w hw => ensures_answering (hc t w hw)

end

/-! ## Many callers -/

variable {I : World → Prop} {P : Query → Except Fault Answer → Prop} {A : Decimal → Prop}

/-- What a call has been told is of the kind for its query, or will be. -/
def Stage.Vouched (I : World → Prop) (P : Query → Except Fault Answer → Prop) : Stage → Prop
  | .lookingUp _ _ rest => Vouches I (fun _ => True) rest
  | .asking q rest => Vouches I (P q) rest
  | .answered q r => P q r
  | .ready _ _ | .placed _ _ | .cancelled _ _ _ | .listed _ _ => True

/-- Beginning this, or having the link changed so, does not break the condition. -/
def Act.Vouched (I : World → Prop) (P : Query → Except Fault Answer → Prop) : Act → Prop
  | .place t => Vouches I (fun _ => True) (price t.marketId).run
  | .ask q => Vouches I (P q) q.call.run
  | .relink link => ∀ w, I w → I { w with link }
  | .goOn _ _ | .enter _ _ _ | .cancel _ _ _ | .list _ _ => True

/-- The condition is not about the orders. -/
def IgnoresOrders (I : World → Prop) : Prop :=
  ∀ orders issued w, I w → I { w with paper := { w.paper with orders, issued } }

namespace Desk

/-- The condition holds, and every call is told what is of the kind for its query. -/
structure Vouched (I : World → Prop) (P : Query → Except Fault Answer → Prop) (d : Desk) :
    Prop where
  world : I d.world
  calls : ∀ s ∈ d.calls, s.Vouched I P

variable {d : Desk} {σ : Nat → Act}

theorem Vouched.goOn (h : d.Vouched I P) (k : Nat) (now : Timestamp) :
    (d.goOn k now).Vouched I P := by
  unfold Desk.goOn
  split
  · next t ht p hk =>
    have hp : Vouches I (fun _ => True) p := h.calls _ (List.mem_of_getElem? hk)
    obtain ⟨hworld, -, hwaits⟩ := hp.resume h.world now
    refine ⟨hworld, forall_set h.calls ?_⟩
    match hrest : (p.resume now d.world).rest with
    | .inl (.ok _) | .inl (.error _) => trivial
    | .inr (ms, q) => exact hwaits ms q hrest
  · next q p hk =>
    have hp : Vouches I (P q) p := h.calls _ (List.mem_of_getElem? hk)
    obtain ⟨hworld, hends, hwaits⟩ := hp.resume h.world now
    refine ⟨hworld, forall_set h.calls ?_⟩
    match hrest : (p.resume now d.world).rest with
    | .inl r => exact hends r hrest
    | .inr (ms, q) => exact hwaits ms q hrest
  · exact h

theorem Vouched.enter (hI : IgnoresOrders I) (h : d.Vouched I P) (k : Nat) (id : String)
    (now : Timestamp) : (d.enter k id now).Vouched I P := by
  unfold Desk.enter
  split
  · next t ht hk =>
    rw [run_enter]
    cases orderOf t id now with
    | ok o => exact ⟨hI _ _ _ h.world, forall_set h.calls trivial⟩
    | error c => exact ⟨h.world, forall_set h.calls trivial⟩
  · exact h

theorem Vouched.act (hI : IgnoresOrders I) (h : d.Vouched I P) {a : Act} (ha : a.Vouched I P) :
    (d.act a).Vouched I P := by
  cases a with
  | place t =>
    refine ⟨h.world, forall_concat h.calls ?_⟩
    unfold Stage.ofTicket
    split
    · exact ha
    · trivial
  | ask q => exact ⟨h.world, forall_concat h.calls ha⟩
  | goOn k now => exact h.goOn k now
  | enter k id now => exact h.enter hI k id now
  | cancel id m now => exact ⟨hI _ _ _ h.world, forall_concat h.calls trivial⟩
  | list m now => exact ⟨h.world, forall_concat h.calls trivial⟩
  | relink link => exact ⟨ha d.world h.world, h.calls⟩

/-- **Every answer is of its kind** at all times, in whatever order the callers take their turns. -/
theorem Vouched.after (hI : IgnoresOrders I) (h : d.Vouched I P)
    (hσ : ∀ n, (σ n).Vouched I P) (n : Nat) : (d.after σ n).Vouched I P := by
  induction n with
  | zero => exact h
  | succ n ih => exact ih.act hI (hσ n)

end Desk

/-! ## Prices of a kind -/

/-- What an answer is made of, if all prices are of a kind. -/
inductive Quoted (A : Decimal → Prop) : Query → Answer → Prop
  | price {m : String} {p : Decimal} : A p → Quoted A (.price m) (.amount p)
  | orderBook {m : String} {p : Decimal} {b : OrderBook} : A p → bookAround m p = .ok b →
      Quoted A (.orderBook m) (.orderBook b)
  /-- The book and the last price may be of different times. -/
  | ticker {m : String} {p last : Decimal} {b : OrderBook} (now : Timestamp) : A p →
      bookAround m p = .ok b → A last → Quoted A (.ticker m) (.ticker (tickerOf now b last))
  | quiet {q : Query} (a : Answer) : q.market? = none → Quoted A q a

/-- Under a condition on worlds all prices are of a kind, and the exchange keeps the condition. -/
structure Keeps (I : World → Prop) (A : Decimal → Prop) : Prop where
  quotes : ∀ {w m p}, I w → w.Quotes m p → A p
  take : ∀ request w, I w → I { w with link := (w.link.take request).2 }
  setPrice : ∀ m {p w}, A p → I w → I { w with paper := w.paper.setPrice m p }
  orders : IgnoresOrders I

/-- Prices that are set are of the kind, and links that are set keep the condition. -/
def Act.Upholds (I : World → Prop) (A : Decimal → Prop) : Act → Prop
  | .ask (.setPrice _ p) => A p
  | .relink link => ∀ w, I w → I { w with link }
  | .ask _ | .place _ | .goOn _ _ | .enter _ _ _ | .cancel _ _ _ | .list _ _ => True

namespace Keeps

variable (h : Keeps I A)

include h

theorem vouches_price (m : String) : Vouches I (GivesOnly A) (price m).run := by
  intro t w hw
  rw [price, ensures_look]
  cases hf : w.paper.feed with
  | none =>
    dsimp only
    rw [ensures_look, Call.ensures_ofExcept]
    refine ⟨hw, fun p hp => ?_⟩
    have hknown : w.paper.prices.get? m = some p :=
      seededPrice_eq_ok_iff.mp (mapError_eq_ok_iff.mp hp)
    exact h.quotes hw (.known hf hknown)
  | some feed =>
    dsimp only
    rw [Call.ensures_bind]
    refine Http.Client.ensures_get h.take hw asks_of_ne fun w' hw' => ?_
    cases ha : feed.answer (feed.address (feedPath m)) decodeLast (linkSlot.get w) with
    | error e => exact ⟨hw', givesOnly_error _⟩
    | ok last =>
      obtain ⟨url, reply, hreach, htime, hfate, hstatus, hlast⟩ :=
        Http.Client.answer_eq_ok_iff.mp ha
      -- A reply is quoted only if the feed could have told it.
      have hA : A last := h.quotes hw (.told hf hreach htime hfate hstatus hlast)
      exact ensures_change.mpr ⟨h.setPrice m hA hw', givesOnly_ok hA⟩

theorem vouches_orderBook (m : String) :
    Vouches I (GivesOnly fun b => ∃ p, A p ∧ bookAround m p = .ok b) (orderBook m).run := by
  refine vouches_bind (h.vouches_price m) fun p hp => vouches_compute fun b hb => ?_
  exact ⟨p, hp, mapError_eq_ok_iff.mp hb⟩

theorem vouches_ticker (m : String) : Vouches I (GivesOnly fun k =>
    ∃ now p b last, A p ∧ bookAround m p = .ok b ∧ A last ∧ k = tickerOf now b last)
    (ticker m).run := by
  refine vouches_bind (h.vouches_orderBook m) fun b hb => ?_
  obtain ⟨p, hp, hbook⟩ := hb
  refine vouches_bind (h.vouches_price m) fun last hlast t w hw => ?_
  rw [Call.ensures_bind, Call.ensures_lift, Program.ensures_now]
  intro now
  exact Call.ensures_pure.mpr ⟨hw, givesOnly_ok ⟨now, p, b, last, hp, hbook, hlast, rfl⟩⟩

/-- **Every query vouches for what it quotes**, if the prices that are set are of the kind. -/
theorem vouches_query {q : Query} (hq : (Act.ask q).Upholds I A) :
    Vouches I (GivesOnly (Quoted A q)) q.call.run := by
  cases q with
  | price m =>
    exact vouches_answering ((h.vouches_price m).mono fun r hr => hr.map fun p hp => .price hp)
  | orderBook m =>
    refine vouches_answering ((h.vouches_orderBook m).mono fun r hr => hr.map fun b hb => ?_)
    obtain ⟨p, hp, hbook⟩ := hb
    exact .orderBook hp hbook
  | ticker m =>
    refine vouches_answering ((h.vouches_ticker m).mono fun r hr => hr.map fun k hk => ?_)
    obtain ⟨now, p, b, last, hp, hbook, hlast, rfl⟩ := hk
    exact .ticker now hp hbook hlast
  | balances =>
    refine vouches_answering (vouches_look fun w _ => vouches_compute fun a _ => ?_)
    exact .quiet a rfl
  | buyFee m | sellFee m =>
    refine vouches_answering (vouches_look fun w _ => vouches_pure fun a _ => ?_)
    exact .quiet a rfl
  | setPrice m p =>
    intro t w hw
    exact ensures_change.mpr ⟨h.setPrice m hq hw, fun a _ => .quiet a rfl⟩

/-- Of what may happen, only a question has to vouch for something else. -/
theorem vouched_act {a : Act} (ha : a.Upholds I A)
    (hask : ∀ q, a = .ask q → Vouches I (P q) q.call.run) : a.Vouched I P := by
  cases a with
  | place t => exact (h.vouches_price t.marketId).mono fun _ _ => trivial
  | ask q => exact hask q rfl
  | relink link => exact ha
  | goOn | enter | cancel | list => trivial

/-- **All that is ever quoted comes from prices of the kind.** -/
theorem quoted_after {d : Desk} (hw : I d.world) (hd : d.calls = []) {σ : Nat → Act}
    (hσ : ∀ n, (σ n).Upholds I A) (n : Nat) {q : Query} {a : Answer}
    (ha : .answered q (.ok a) ∈ (d.after σ n).calls) : Quoted A q a := by
  have hnone : ∀ s ∈ d.calls, s.Vouched I fun q => GivesOnly (Quoted A q) := by
    rw [hd]
    exact List.forall_mem_nil _
  have hacts (n : Nat) : (σ n).Vouched I fun q => GivesOnly (Quoted A q) :=
    h.vouched_act (hσ n) fun q hq => h.vouches_query (hq ▸ hσ n)
  exact (Desk.Vouched.after h.orders ⟨hw, hnone⟩ hacts n).calls _ ha a rfl

end Keeps

/-! ## Answers that are given -/

namespace Desk

variable {d : Desk} {now : Timestamp} {k : Nat} {q : Query}

theorem after_succ_left (d : Desk) (σ : Nat → Act) (n : Nat) :
    d.after σ (n + 1) = (d.act (σ 0)).after (fun i => σ (i + 1)) n := by
  induction n with
  | zero => rfl
  | succ n ih => exact congrArg (fun d => d.act (σ (n + 1))) ih

/-- A call that goes on again and again, while nobody else does anything, gets its answer. -/
theorem exists_answered_of_settles {p : Program World (Except Fault Answer)} {w w' : World}
    {r : Except Fault Answer} (h : p.Settles now w r w') (hw : d.world = w)
    (hk : d.calls[k]? = some (.asking q p)) :
    ∃ n, (d.after (fun _ => .goOn k now) n).calls[k]? = some (.answered q r) := by
  -- Each turn of the call is one move of the desk.
  induction h generalizing d with
  | @ends p w r he =>
    refine ⟨1, ?_⟩
    show (d.goOn k now).calls[k]? = _
    rw [goOn, hk]
    dsimp only
    rw [hw, he]
    exact (getElem?_set hk).mpr (.inl ⟨rfl, rfl⟩)
  | @goesOn p p' w w' ms r he _ ih =>
    have hon : d.act (.goOn k now) = d.becomes k (p.resume now w).world (.asking q p') := by
      show d.goOn k now = _
      rw [goOn, hk]
      dsimp only
      rw [hw, he]
      rfl
    obtain ⟨n, hn⟩ := ih (d := d.act (.goOn k now)) (by rw [hon]; rfl)
      (by rw [hon]; exact (getElem?_set hk).mpr (.inl ⟨rfl, rfl⟩))
    exact ⟨n + 1, by rw [after_succ_left]; exact hn⟩

/-- The acts of a user who asks and then waits for the answer. -/
def asking (q : Query) (k : Nat) (now : Timestamp) : Nat → Act
  | 0 => .ask q
  | _ + 1 => .goOn k now

/-- **What a query comes to** when it is carried to its end at one moment is an answer that a user
gets. -/
theorem exists_answered (d : Desk) (q : Query) (now : Timestamp) :
    ∃ n, .answered q (q.call.run.run now d.world).1 ∈
      (d.after (asking q d.calls.length now) n).calls := by
  obtain ⟨n, hn⟩ := exists_answered_of_settles (d := d.act (.ask q)) (k := d.calls.length)
    (q.call.run.settles_run now d.world) rfl (getElem?_concat.mpr (.inr ⟨rfl, rfl⟩))
  refine ⟨n + 1, ?_⟩
  rw [after_succ_left]
  exact List.mem_of_getElem? hn

end Desk

end Paper

end TradingBot
