import TradingBot.Proofs.FeedAccounts
import TradingBot.Proofs.Retries

/-!
# Prices of a paper exchange with and without a feed

**Prices that do not matter** (`Paper.Session.through`). Sessions during which prices are also set
from outside. Where there is a feed, they show only what the users do: a session with prices set is
akin to the same session without (`Paper.Session.Twin.through`).

**Seeds that do not matter** (`Config.Exchange.AgreesButPrices`). Two configurations that differ in
seeded prices alone leave akin exchanges, if they set a feed (`Paper.akin_init`).

**Without a feed** (`Paper.Desk.Unfed`). No call ever waits, and none sends anything.

**Theorem (`Paper.feedDriven_after`).** From the initialisation that sets a feed on, prices are what
the feed answers, request by request, and nothing else about prices is ever seen.
-/

namespace TradingBot

/-! ## Prices that do not matter -/

namespace Paper

/-- The known prices of one exchange alone may change, if it is fed. -/
theorem Akin.setPrice_left {p p' : Paper} (h : p.Akin True p') (marketId : String)
    (price : Decimal) : (p.setPrice marketId price).Akin True p' :=
  { h with prices := fun hfed => absurd trivial hfed }

/-- What happens at one moment of a session. -/
inductive Moment where
  | use (u : Use)
  | setPrice (marketId : String) (price : Decimal)

def Moment.use? : Moment → Option Use
  | .use u => some u
  | .setPrice _ _ => none

namespace Session

def pass (s : Session) : Moment → Session
  | .use u => s.use u
  | .setPrice marketId price =>
    { s with desk := { s.desk with
      world := { s.desk.world with paper := s.desk.world.paper.setPrice marketId price } } }

def through (s : Session) (ms : List Moment) : Session := ms.foldl pass s

variable {s s' : Session}

/-- **Where there is a feed, setting prices makes no difference** to what the users do. -/
theorem Twin.through (h : s.Twin True s') (ms : List Moment) :
    (s.through ms).Twin True (s'.after (ms.filterMap Moment.use?)) := by
  induction ms generalizing s s' with
  | nil => exact h
  | cons m ms ih =>
    cases m with
    | use u => exact ih (h.use u)
    | setPrice marketId price =>
      have hworld := h.desk.world
      exact ih ⟨⟨⟨hworld.link, hworld.paper.setPrice_left marketId price⟩, h.desk.calls⟩, h.inits⟩

end Session

/-- **Neither the prices that were known nor those that are set are seen**, if there is a feed. -/
theorem seen_through_of_akin {w w' : World} (h : w.Akin True w') {ms ms' : List Moment}
    (hms : ms.filterMap Moment.use? = ms'.filterMap Moment.use?) :
    ((Session.start w).through ms).seen = ((Session.start w').through ms').seen := by
  have hfeed : w'.paper.feed ≠ none := by
    rw [h.paper.feed]
    exact h.paper.hasFeed trivial
  have hleft : (Session.start w).Twin True (Session.start w') := ⟨⟨h, .nil⟩, rfl⟩
  have hright : (Session.start w').Twin True (Session.start w') :=
    ⟨⟨⟨rfl, .refl fun _ => hfeed⟩, .nil⟩, rfl⟩
  rw [(hleft.through ms).seen, (hright.through ms').seen, hms]

end Paper

/-! ## Seeds that do not matter -/

/-- The setting seeds the price of a market. -/
def Config.Exchange.isPriceSetting (setting : String × String) : Bool :=
  (Text.behind? Paper.priceKey setting.1).isSome

/-- The configurations differ at most in the prices that they seed, and in what an exchange makes
no use of. -/
structure Config.Exchange.AgreesButPrices (c c' : Config.Exchange) : Prop where
  network : c'.networkOrDefault = c.networkOrDefault
  other : c'.other.entries.filter (!isPriceSetting ·) = c.other.entries.filter (!isPriceSetting ·)

namespace Paper

open Config.Exchange (isPriceSetting)

theorem lookup_filter {key : String} (hkey : Text.behind? priceKey key = none)
    (l : List (String × String)) : (l.filter (!isPriceSetting ·)).lookup key = l.lookup key := by
  induction l with
  | nil => rfl
  | cons e l ih =>
    obtain ⟨k, v⟩ := e
    by_cases hk : key = k
    · subst hk
      have hkept : (!isPriceSetting (key, v)) = true := by simp [isPriceSetting, hkey]
      rw [List.filter_cons, if_pos hkept, List.lookup_cons_self, List.lookup_cons_self]
    · have hne : (key == k) = false := by simpa using hk
      rw [List.lookup_cons, hne, ← ih, List.filter_cons]
      split
      · rw [List.lookup_cons, hne]
      · rfl

/-- No setting seeds both a price and funds. -/
theorem behind?_balanceKey {key : String} (h : (Text.behind? priceKey key).isSome) :
    Text.behind? balanceKey key = none := by
  rw [Text.behind?, Option.isSome_map, Option.isSome_iff_exists] at h
  obtain ⟨rest, hrest⟩ := h
  rw [Text.behindList?_eq_some] at hrest
  rw [Text.behind?, hrest, Option.map_eq_none_iff]
  rfl

theorem readAmounts_filter (l : List (String × String)) :
    readAmounts balanceKey (l.filter (!isPriceSetting ·)) = readAmounts balanceKey l := by
  induction l with
  | nil => rfl
  | cons e l ih =>
    obtain ⟨key, raw⟩ := e
    rw [List.filter_cons]
    by_cases hprice : isPriceSetting (key, raw) = true
    · have hnone := behind?_balanceKey hprice
      rw [hprice, if_neg (by simp), ih, readAmounts, hnone]
    · have hkept : (!isPriceSetting (key, raw)) = true := by simpa using hprice
      rw [if_pos hkept, readAmounts, readAmounts, ih]

variable {c c' : Config.Exchange}

theorem get?_of_agrees (h : c.AgreesButPrices c') {key : String}
    (hkey : Text.behind? priceKey key = none) : c'.other.get? key = c.other.get? key := by
  rw [Dict.get?, Dict.get?, ← lookup_filter hkey, h.other, lookup_filter hkey]

theorem fees_of_agrees (h : c.AgreesButPrices c') : Fees.read c'.other = Fees.read c.other := by
  have hone {key : String} (hkey : Text.behind? priceKey key = none) :
      Fees.readOne c'.other key = Fees.readOne c.other key := by
    rw [Fees.readOne, Fees.readOne, get?_of_agrees h hkey]
  rw [Fees.read, Fees.read, hone (by decide), hone (by decide)]

theorem feedOf_of_agrees (h : c.AgreesButPrices c') : feedOf c' = feedOf c := by
  rw [feedOf, feedOf, get?_of_agrees h (by decide), h.network]

theorem amounts_of_agrees (h : c.AgreesButPrices c') :
    amounts c'.other balanceKey = amounts c.other balanceKey := by
  rw [amounts, amounts, ← readAmounts_filter, h.other, readAmounts_filter]

/-- **Seeded prices make no difference** where a feed is set, whatever prices were known before. -/
theorem akin_init (h : c.AgreesButPrices c') (hset : SetsFeed c) (p : Paper)
    (prices : Dict Decimal) : (init c p).2.Akin True (init c' { p with prices }).2 := by
  have hfeed (feed : Option Http.Client) : (feedOf c).or feed ≠ none :=
    fun hnone => hset.2 (Option.or_eq_none_iff.mp hnone).1
  obtain ⟨fees, hfees⟩ := hset.1
  unfold init
  rw [fees_of_agrees h, feedOf_of_agrees h, amounts_of_agrees h, hfees]
  dsimp only
  cases amounts c.other balanceKey with
  | error e => exact ⟨rfl, rfl, rfl, rfl, fun _ => hfeed _, fun hfed => absurd trivial hfed⟩
  | ok available =>
    dsimp only
    cases amounts c.other priceKey <;> cases amounts c'.other priceKey <;>
      exact ⟨rfl, rfl, rfl, rfl, fun _ => hfeed _, fun hfed => absurd trivial hfed⟩

/-! ## Without a feed -/

/-- There is no feed, and the link is this one. -/
structure World.Unfed (link : Http.Link) (w : World) : Prop where
  feed : w.paper.feed = none
  link : w.link = link

/-- Where there is no feed, the program ends without a wait and leaves the link and no feed. -/
def Silent {α : Type} (p : Program World α) : Prop :=
  ∀ link t w, World.Unfed link w →
    p.Ensures asks (fun _ => False) (fun _ _ w' => w'.Unfed link) t w

section

variable {α β : Type}

theorem silent_bind {c : Call World α} {k : α → Call World β} (hc : Silent c.run)
    (hk : ∀ a, Silent (k a).run) : Silent (c >>= k).run := by
  intro link t w hw
  rw [Call.ensures_bind]
  refine (hc link t w hw).mono fun t' r w' hw' => ?_
  cases r with
  | ok a => exact hk a link t' w' hw'
  | error f => exact hw'

theorem silent_pure (a : α) : Silent (pure a : Call World α).run :=
  fun _ _ _ hw => Call.ensures_pure.mpr hw

theorem silent_compute (r : Except Crash α) : Silent (Call.compute r : Call World α).run :=
  fun _ _ _ hw => Call.ensures_compute.mpr hw

theorem silent_look {k : Paper → Call World α} (hk : ∀ p, Silent (k p).run) :
    Silent (Call.lift look >>= k).run :=
  fun link t w hw => ensures_look.mpr (hk w.paper link t w hw)

theorem silent_price (marketId : String) : Silent (price marketId).run := by
  intro link t w hw
  rw [price, ensures_look, hw.feed]
  dsimp only
  rw [ensures_look, Call.ensures_ofExcept]
  exact hw

theorem silent_orderBook (marketId : String) : Silent (orderBook marketId).run :=
  silent_bind (silent_price marketId) fun _ => silent_compute _

theorem silent_ticker (marketId : String) : Silent (ticker marketId).run := by
  refine silent_bind (silent_orderBook marketId) fun book => ?_
  refine silent_bind (silent_price marketId) fun last => silent_bind ?_ fun _ => silent_pure _
  exact fun link t w hw => Call.ensures_lift.mpr (Program.ensures_now.mpr fun _ => hw)

theorem Query.silent (q : Query) : Silent q.call.run := by
  cases q with
  | price m => exact silent_bind (silent_price m) fun _ => silent_pure _
  | orderBook m => exact silent_bind (silent_orderBook m) fun _ => silent_pure _
  | ticker m => exact silent_bind (silent_ticker m) fun _ => silent_pure _
  | balances => exact silent_bind (silent_look fun _ => silent_compute _) fun _ => silent_pure _
  | buyFee m | sellFee m =>
    exact silent_bind (silent_look fun _ => silent_pure _) fun _ => silent_pure _
  | setPrice m amount => exact fun link t w hw => ensures_change.mpr ⟨hw.feed, hw.link⟩

end

/-- What is left of the call is silent. -/
def Stage.IsSilent : Stage → Prop
  | .lookingUp _ _ rest => Silent rest
  | .asking _ rest => Silent rest
  | .ready _ _ | .placed _ _ | .cancelled _ _ _ | .listed _ _ | .answered _ _ => True

theorem Silent.resume {α : Type} {p : Program World α} (h : Silent p) {link : Http.Link} {w : World}
    (hw : w.Unfed link) (now : Timestamp) : (p.resume now w).world.Unfed link ∧
      ∃ a, (p.resume now w).rest = .inl a := by
  obtain ⟨-, hends, hwaits⟩ := (h link [] w hw).resume now
  match hrest : (p.resume now w).rest with
  | .inl a => exact ⟨hends a hrest, a, rfl⟩
  | .inr (ms, q) => exact (hwaits ms q hrest).1.elim

namespace Desk

/-- There is no feed, the link is this one, and no call will send anything. -/
structure Unfed (link : Http.Link) (d : Desk) : Prop where
  world : d.world.Unfed link
  calls : ∀ s ∈ d.calls, s.IsSilent

variable {link : Http.Link} {d : Desk}

theorem Unfed.goOn (h : d.Unfed link) (k : Nat) (now : Timestamp) : (d.goOn k now).Unfed link := by
  unfold Desk.goOn
  split
  · next t ht p hk =>
    have hp : Silent p := h.calls _ (List.mem_of_getElem? hk)
    obtain ⟨hworld, r, hrest⟩ := hp.resume h.world now
    dsimp only
    rw [hrest]
    refine ⟨hworld, forall_set h.calls ?_⟩
    cases r <;> trivial
  · next q p hk =>
    have hp : Silent p := h.calls _ (List.mem_of_getElem? hk)
    obtain ⟨hworld, r, hrest⟩ := hp.resume h.world now
    dsimp only
    rw [hrest]
    exact ⟨hworld, forall_set h.calls trivial⟩
  · exact h

theorem Unfed.enter (h : d.Unfed link) (k : Nat) (id : String) (now : Timestamp) :
    (d.enter k id now).Unfed link := by
  unfold Desk.enter
  split
  · next t ht hk =>
    rw [run_enter]
    cases orderOf t id now with
    | ok o => exact ⟨⟨h.world.feed, h.world.link⟩, forall_set h.calls trivial⟩
    | error c => exact ⟨h.world, forall_set h.calls trivial⟩
  · exact h

end Desk

/-- The user neither changes the link nor sets a feed. -/
def Use.KeepsUnfed : Use → Prop
  | .act (.relink _) => False
  | .act _ => True
  | .init c _ => ¬ SetsFeed c

namespace Session

open Desk (forall_concat)

variable {link : Http.Link} {s : Session}

theorem unfed_use (h : s.desk.Unfed link) {u : Use} (hu : u.KeepsUnfed) :
    (s.use u).desk.Unfed link := by
  cases u with
  -- An attempt that sets no feed leaves none.
  | init c now =>
    rw [Session.use]
    dsimp only
    rw [run_initialise]
    refine ⟨⟨?_, h.world.link⟩, h.calls⟩
    show (Paper.init c s.desk.world.paper).2.feed = none
    rw [init_feed]
    exact feedAfter_eq_none_iff.mpr ⟨h.world.feed, hu⟩
  | act a =>
    cases a with
    -- Looking up a price without a feed asks nothing.
    | place t =>
      have ht : (Stage.ofTicket t).IsSilent := by
        unfold Stage.ofTicket
        split
        · exact silent_price t.marketId
        · trivial
      exact ⟨h.world, forall_concat h.calls ht⟩
    | ask q => exact ⟨h.world, forall_concat h.calls q.silent⟩
    | goOn k now => exact h.goOn k now
    | enter k id now => exact h.enter k id now
    | cancel id m now => exact ⟨⟨h.world.feed, h.world.link⟩, forall_concat h.calls trivial⟩
    | list m now => exact ⟨⟨h.world.feed, h.world.link⟩, forall_concat h.calls trivial⟩
    | relink link => exact hu.elim

theorem unfed_after (h : s.desk.Unfed link) {uses : List Use} (huses : ∀ u ∈ uses, u.KeepsUnfed) :
    (s.after uses).desk.Unfed link := by
  induction uses generalizing s with
  | nil => exact h
  | cons u uses ih =>
    obtain ⟨hu, huses⟩ := List.forall_mem_cons.mp huses
    exact ih (unfed_use h hu) huses

end Session

/-- **Without a feed, nothing is sent** in any session that does not set one. -/
theorem link_after_of_unfed {w : World} (hw : w.paper.feed = none) {uses : List Use}
    (huses : ∀ u ∈ uses, u.KeepsUnfed) :
    ((Session.start w).after uses).desk.world.link = w.link := by
  have hstart : (Session.start w).desk.Unfed w.link := ⟨⟨hw, rfl⟩, List.forall_mem_nil _⟩
  exact (Session.unfed_after hstart huses).world.link

/-! ## The whole of it -/

/-- From a world on, what is told about prices is what the feed answers. -/
structure FeedDriven (feed : Http.Client) (base : Http.Url) (w : World) : Prop where
  /-- Other prices, or prices that are set from outside, are never seen. -/
  blind : ∀ w', w.Akin True w' → ∀ ms ms' : List Moment,
    ms.filterMap Moment.use? = ms'.filterMap Moment.use? →
    ((Session.start w).through ms).seen = ((Session.start w').through ms').seen
  /-- Every errand fetches the answers that it uses, whatever was run before. -/
  accounts : ∀ (es : List (Errand × Timestamp)) (e : Errand) (now : Timestamp),
    ∃ answers, e.Accounts feed base now (w.afterErrands es) answers
  /-- It uses its own answers, whatever others do while it waits. -/
  own : ∀ (es : List (Errand × Timestamp)) (t : List Ask),
    (∀ q : Query, q.call.run.Ensures asks (fun w => w.paper.feed = some feed) (q.ComesTo feed t) t
      (w.afterErrands es)) ∧
    ∀ ticket : Ticket, Acceptable ticket →
      (place ticket).run.Ensures asks (fun w => w.paper.feed = some feed)
        (fun t' r w' => ∃ now id answers,
          (Errand.place ticket).Uses now id answers (.placed r) ∧
            Heard feed ticket.marketId t answers t' w') t (w.afterErrands es)

theorem World.Live.feedDriven {feed : Http.Client} {base : Http.Url} {w : World}
    (h : w.Live feed base) : FeedDriven feed base w where
  blind _ hw _ _ hms := seen_through_of_akin hw hms
  accounts es e now := e.accounts_after h es now
  own es _ :=
    ⟨fun q => q.ensures_comesTo (h.afterErrands es).hasFeed,
      fun _ ht => ensures_place_of_feed ht (h.afterErrands es).hasFeed⟩

/-- An attempt that sets a feed leaves it in place, whatever else it comes to. -/
theorem live_attempt {c : Config.Exchange} {feed : Http.Client} {base : Http.Url} {w : World}
    (hfees : ∃ fees, Fees.read c.other = .ok fees) (hfeed : feedOf c = some feed)
    (hbase : w.link.Serves (feed.address "/") base) (now : Timestamp) :
    (attempt now w c).Live feed base := by
  obtain ⟨fees, hread⟩ := hfees
  rw [attempt_eq]
  refine ⟨?_, hbase⟩
  show (init c w.paper).2.feed = some feed
  rw [init_feed, feedAfter, hread, hfeed]
  rfl

/-- **Prices with and without a feed.** Once a feed has been set whose base can be reached, prices
are what it answers, and it makes no difference what was seeded or known before. Without a feed,
nothing is ever sent. -/
theorem feedDriven_after {c : Config.Exchange} {raw : String} {w : World} {now : Timestamp}
    {base : Http.Url} (hfees : ∃ fees, Fees.read c.other = .ok fees)
    (hraw : c.other.get? feedKey = some raw)
    (hbase : w.link.Serves (Http.Client.withoutSlashes (Text.trim raw) ++ "/") base) :
    FeedDriven { base := Text.trim raw, network := c.networkOrDefault } base (attempt now w c) ∧
    (∀ (c' : Config.Exchange) (prices : Dict Decimal), c.AgreesButPrices c' →
      (attempt now w c).Akin True
        (attempt now { w with paper := { w.paper with prices } } c')) ∧
    ∀ (w' : World) (uses : List Use), w'.paper.feed = none → (∀ u ∈ uses, u.KeepsUnfed) →
      ((Session.start w').after uses).desk.world.link = w'.link := by
  have hfeed : feedOf c = some { base := Text.trim raw, network := c.networkOrDefault } := by
    rw [feedOf, hraw]
    rfl
  have hset : SetsFeed c := ⟨hfees, by rw [hfeed]; exact nofun⟩
  refine ⟨(live_attempt hfees hfeed hbase now).feedDriven, fun c' prices hagrees => ?_,
    fun w' uses hnone huses => link_after_of_unfed hnone huses⟩
  rw [attempt_eq, attempt_eq]
  exact ⟨rfl, akin_init hagrees hset w.paper prices⟩

end Paper

/-! ## A rehearsed feed -/

namespace Rehearsed

open Paper

/-- The feed's address has blanks around it and slashes behind it, and a price is seeded. -/
def doublyPriced : Config.Exchange :=
  { name := "Paper", adapter := "paper"
    other := .ofList [(feedKey, " http://feed.test/api// "), ("price.btcusd", "7")] }

/-- The feed tells two prices. -/
def quoting : World := { link := { replies := [quote "100", quote "101"] } }

/-- Prices come from under the trimmed address, whatever was seeded: two requests for a ticker. -/
theorem feedDriven_rehearsed : (∃ fees, Fees.read doublyPriced.other = .ok fees) ∧
    doublyPriced.other.get? feedKey = some " http://feed.test/api// " ∧ ∃ base,
    quoting.link.Serves
      (Http.Client.withoutSlashes (Text.trim " http://feed.test/api// ") ++ "/") base ∧
    FeedDriven { base := Text.trim " http://feed.test/api// ", network := {} } base
      (attempt dawn quoting doublyPriced) ∧
    ((Errand.query (.ticker "btcusd")).run dawn
      (attempt dawn quoting doublyPriced)).2.link.requests.map (·.line) =
        ["GET /api/ticker/btcusd", "GET /api/ticker/btcusd"] := by
  have hfees : ∃ fees, Fees.read doublyPriced.other = .ok fees := ⟨{}, by decide +kernel⟩
  have hraw : doublyPriced.other.get? feedKey = some " http://feed.test/api// " := by
    decide +kernel
  have hbase : quoting.link.Serves
      (Http.Client.withoutSlashes (Text.trim " http://feed.test/api// ") ++ "/")
      { scheme := "http", host := some "feed.test", path := "/api/" } :=
    ⟨by decide +kernel, by decide, rfl⟩
  exact ⟨hfees, hraw, _, hbase, (feedDriven_after hfees hraw hbase).1, by decide +kernel⟩

end Rehearsed

end TradingBot
