import TradingBot.Proofs.FeedRuns
import TradingBot.Proofs.MirroredBooks
import TradingBot.Proofs.Seeding

/-!
# Whether what is quoted can be traded

An order is refused unless its price is positive. No such rule holds for the prices that settings
seed and that a feed tells.

**Sound sources** (`Paper.World.Sound`). Where all known prices are positive, and so is all that the
feed can tell, every quote comes from positive prices, whatever else happens.

**Sound settings** (`Paper.SoundlySet`). A configuration alone ensures that in two ways: without a
feed, if all seeded prices are positive, or with a feed that cannot be asked.

**Theorem (`Paper.tradable_iff_soundlySet`).** These two are the only ones: of any other accepted
configuration there is a session in which a price is quoted that is not positive. A book around a
negative price is upside down.
-/

namespace TradingBot

namespace Paper

variable {c : Config.Exchange} {w : World} {now : Timestamp} {σ : Nat → Act}

/-! ## Sound sources -/

/-- Known prices are positive, if there is no feed, and the feed and its link are as they should be,
if there is one. -/
structure World.Sound (F : Http.Client → Http.Link → Prop) (w : World) : Prop where
  known : w.paper.feed = none → ∀ m p, w.paper.prices.get? m = some p → .zero < p
  feed : ∀ feed, w.paper.feed = some feed → F feed w.link

/-- What a feed tells over such a link is positive, whatever was asked before. -/
structure TellsPositive (F : Http.Client → Http.Link → Prop) : Prop where
  take : ∀ feed link request, F feed link → F feed (link.take request).2
  told : ∀ feed link m url reply p, F feed link →
    link.Reaches (feed.address (feedPath m)) url reply → reply.status.IsSuccess →
    (Json.parse reply.text).bind decodeLast = some p → .zero < p

theorem keeps_sound {F : Http.Client → Http.Link → Prop} (hF : TellsPositive F) :
    Keeps (World.Sound F) (.zero < ·) where
  quotes hw hq := by
    cases hq with
    | known hf hp => exact hw.known hf _ _ hp
    | told hf hreach _ _ hstatus hp =>
      exact hF.told _ _ _ _ _ _ (hw.feed _ hf) hreach hstatus hp
  take request w hw := ⟨hw.known, fun feed hf => hF.take feed w.link request (hw.feed feed hf)⟩
  setPrice m p w hp hw := by
    refine ⟨fun hf m' p' h => ?_, hw.feed⟩
    have hget : (w.paper.prices.insert m p).get? m' = some p' := h
    rw [Dict.get?_insert] at hget
    by_cases hm : m' = m
    · rw [if_pos hm] at hget
      cases hget
      exact hp
    · rw [if_neg hm] at hget
      exact hw.known hf m' p' hget
  orders _ _ _ hw := ⟨hw.known, hw.feed⟩

/-- No market's price is at an address that can be asked. -/
def CutOff (feed : Http.Client) : Prop :=
  ∀ m url, Http.Url.parse (feed.address (feedPath m)) = .ok url → ¬ url.IsHttp

/-- A feed that cannot be asked tells nothing. -/
theorem tellsPositive_cutOff : TellsPositive fun feed _ => CutOff feed where
  take _ _ _ h := h
  told _ _ m _ _ _ h hreach _ _ := absurd hreach.isHttp (h m _ hreach.parse)

/-- Each reply that tells a price tells a positive one. -/
def Honest (link : Http.Link) : Prop :=
  ∀ reply ∈ link.replies, ∀ p, (Json.parse reply.text).bind decodeLast = some p → .zero < p

theorem tellsPositive_honest : TellsPositive fun _ link => Honest link where
  take _ _ _ h reply hmem := h reply (List.mem_of_mem_tail hmem)
  told _ link _ _ reply p h hreach hstatus hp := by
    have hreply := hreach.reply
    cases hreplies : link.replies with
    | nil =>
      rw [hreplies] at hreply
      subst hreply
      exact absurd hstatus (by decide)
    | cons first rest =>
      rw [hreplies] at hreply
      subst hreply
      exact h _ (hreplies ▸ List.mem_cons_self) p hp

/-! ## Quotes -/

def Act.SetsPositive : Act → Prop
  | .ask (.setPrice _ p) => .zero < p
  | .ask _ | .place _ | .goOn _ _ | .enter _ _ _ | .cancel _ _ _ | .list _ _ | .relink _ => True

/-- Everything that is quoted at a desk comes from positive prices, at all times. -/
def Desk.Tradable (d : Desk) (σ : Nat → Act) : Prop :=
  ∀ n q a, .answered q (.ok a) ∈ (d.after σ n).calls → Quoted (.zero < ·) q a

/-- **Sound sources are enough**, if no act breaks them. -/
theorem tradable_of_sound {F : Http.Client → Http.Link → Prop} (hF : TellsPositive F)
    (hw : (Desk.opened c w now).world.Sound F) (hset : ∀ n, (σ n).SetsPositive)
    (hlink : ∀ n link, σ n = .relink link → ∀ w, World.Sound F w →
      World.Sound F { w with link }) : (Desk.opened c w now).Tradable σ := by
  have hacts (n : Nat) : (σ n).Upholds (World.Sound F) (.zero < ·) := by
    have hs := hset n
    have hl := hlink n
    revert hs hl
    cases σ n with
    | ask q =>
      intro hs _
      cases q <;> exact hs
    | relink link => exact fun _ hl => hl link rfl
    | place | goOn | enter | cancel | list => exact fun _ _ => trivial
  exact fun n q a ha => (keeps_sound hF).quoted_after hw rfl hacts n ha

/-- Whatever users do who set positive prices only, and whatever the feed is, all that the exchange
quotes comes from positive prices. -/
def QuotesTradable (c : Config.Exchange) : Prop :=
  ∀ (w : World) (now : Timestamp) (σ : Nat → Act), (∀ n, (σ n).SetsPositive) →
    (Desk.opened c w now).Tradable σ

/-- The settings ensure it: there is no feed, and all seeded prices are positive, or there is one
that cannot be asked. -/
inductive SoundlySet (c : Config.Exchange) : Prop
  | seeded : feedOf c = none → (∀ m raw p, c.other.get? (priceKey ++ m) = some raw →
      numberOf raw = some p → .zero < p) → SoundlySet c
  | cutOff {feed : Http.Client} : feedOf c = some feed → CutOff feed → SoundlySet c

theorem feed_opened (h : (init c {}).1 = .ok ()) (w : World) (now : Timestamp) :
    (Desk.opened c w now).world.paper.feed = feedOf c := by
  rw [Desk.paper_opened, feed_of_init h]

theorem seeds_opened (h : (init c {}).1 = .ok ()) (w : World) (now : Timestamp) :
    Seeds c.other (Desk.opened c w now).world.paper := by
  rw [Desk.paper_opened]
  rcases init_cases c with ⟨e, he, -⟩ | ⟨-, -, hseeds⟩
  · cases h.symm.trans he
  · exact hseeds

theorem link_opened (c : Config.Exchange) (w : World) (now : Timestamp) :
    (Desk.opened c w now).world.link = w.link := by
  rw [Desk.opened, run_initialise]
  rfl

theorem known_opened_iff (h : (init c {}).1 = .ok ()) (w : World) (now : Timestamp) {m : String}
    {p : Decimal} : (Desk.opened c w now).world.paper.prices.get? m = some p ↔
      ∃ raw, c.other.get? (priceKey ++ m) = some raw ∧ numberOf raw = some p := by
  rw [(seeds_opened h w now).prices, Option.bind_eq_some_iff]

theorem SoundlySet.quotesTradable (h : (init c {}).1 = .ok ()) (hs : SoundlySet c) :
    QuotesTradable c := by
  intro w now σ hset
  refine tradable_of_sound tellsPositive_cutOff ⟨fun hf m p hp => ?_, fun feed hf => ?_⟩ hset ?_
  · cases hs with
    | seeded _ hpos =>
      obtain ⟨raw, hraw, hn⟩ := (known_opened_iff h w now).mp hp
      exact hpos m raw p hraw hn
    | cutOff hfeed =>
      rw [feed_opened h, hfeed] at hf
      cases hf
  · rw [feed_opened h] at hf
    cases hs with
    | seeded hnone => cases hnone.symm.trans hf
    | cutOff hfeed hcut =>
      cases hfeed.symm.trans hf
      exact hcut
  · exact fun n link _ w hw => ⟨hw.known, hw.feed⟩

theorem QuotesTradable.pos (h : QuotesTradable c) {m : String} {p : Decimal}
    (hq : (Desk.opened c w now).world.Quotes m p) : .zero < p := by
  obtain ⟨n, hn⟩ := (Desk.opened c w now).exists_answered (.price m) now
  have hgives : (price m).Gives now (Desk.opened c w now).world p := gives_price_iff.mpr hq
  have hanswer : ((Query.price m).call.run.run now (Desk.opened c w now).world).1 =
      .ok (.amount p) := by
    show ((do return Answer.amount (← price m) : Call World Answer).run.run now _).1 = _
    rw [run_answering]
    show Except.map Answer.amount ((price m).run.run now _).1 = _
    rw [hgives]
    rfl
  rw [hanswer] at hn
  have hsets (n : Nat) : (Desk.asking (.price m) 0 now n).SetsPositive := by
    cases n <;> trivial
  cases h w now _ hsets n _ _ hn with
  | price hpos => exact hpos
  | quiet _ hquiet => cases hquiet

/-- A server that tells a negative price. -/
def misled : Http.Link :=
  { replies := [Rehearsed.quote "-1"] }

/-- **Sound settings are needed**: a seeded price that is not positive is quoted, and so is any
price that a feed tells. -/
theorem QuotesTradable.soundlySet (h : (init c {}).1 = .ok ()) (hq : QuotesTradable c) :
    SoundlySet c := by
  cases hf : feedOf c with
  | none =>
    refine .seeded hf fun m raw p hraw hn => ?_
    have hfeed := (feed_opened h {} ⟨0, 0⟩).trans hf
    have hknown := (known_opened_iff h {} ⟨0, 0⟩).mpr ⟨raw, hraw, hn⟩
    exact hq.pos (.known hfeed hknown)
  | some feed =>
    refine .cutOff hf fun m url hparse hhttp => ?_
    have hfeed := (feed_opened h { link := misled } ⟨0, 0⟩).trans hf
    have hreach : (Desk.opened c { link := misled } ⟨0, 0⟩).world.link.Reaches
        (feed.address (feedPath m)) url (misled.replies.headD Http.Link.exhausted) := by
      rw [link_opened]
      exact ⟨hparse, hhttp, rfl, rfl⟩
    -- A feed may tell minus one.
    have htold : (Json.parse (misled.replies.headD Http.Link.exhausted).text).bind decodeLast =
        some Decimal.one.neg := by
      decide +kernel
    have hpos := hq.pos (.told hfeed hreach (Nat.zero_le _) rfl (by decide) htold)
    exact absurd hpos (by decide)

/-- **When quotes are tradable.** The settings of a new exchange ensure it only if there is no feed
and all seeded prices are positive, or if there is a feed that cannot be asked. With a feed that can
be, it depends on the replies: if each one that tells a price tells a positive one, then so is all
that is quoted. A book around a positive price is in order, and one around a negative price is
upside down. -/
theorem tradable_iff_soundlySet (h : (init c {}).1 = .ok ()) :
    (QuotesTradable c ↔ SoundlySet c) ∧
    (∀ (w : World) (now : Timestamp) (σ : Nat → Act), (∀ n, (σ n).SetsPositive) →
      feedOf c ≠ none → Honest w.link → (∀ n link, σ n = .relink link → Honest link) →
      (Desk.opened c w now).Tradable σ) ∧
    ∀ (m : String) (p : Decimal) (b : OrderBook), bookAround m p = .ok b →
      (.zero ≤ p → b.Orderly p) ∧ (p < .zero → b.UpsideDown p) := by
  refine ⟨⟨fun hq => hq.soundlySet h, fun hs => hs.quotesTradable h⟩, ?_, ?_⟩
  · intro w now σ hset hfeed hhonest hlink
    refine tradable_of_sound tellsPositive_honest ⟨fun hnone => ?_, fun feed _ => ?_⟩ hset ?_
    · exact absurd ((feed_opened h w now).symm.trans hnone) hfeed
    · rw [link_opened]
      exact hhonest
    · exact fun n link hl w hw => ⟨hw.known, fun _ _ => hlink n link hl⟩
  · intro m p b hb
    exact ⟨fun h0 => orderly_of_bookAround h0 hb, fun h0 => upsideDown_of_bookAround h0 hb⟩

end Paper

/-! ## Rehearsed quotes -/

namespace Rehearsed

open Paper

/-- Its only seeded price is positive, and it has no feed. -/
theorem tradable_rehearsed : (init shop {}).1 = .ok () ∧ QuotesTradable shop := by
  have hinit : (init shop {}).1 = .ok () := by decide +kernel
  refine ⟨hinit, (tradable_iff_soundlySet hinit).1.mpr (.seeded (by decide +kernel) ?_)⟩
  intro m raw p hraw hn
  have hentries : shop.other.entries = [("price.btcusd", "1000")] := by decide +kernel
  rw [Dict.get?_eq_some_iff, hentries, List.mem_singleton] at hraw
  obtain rfl : raw = "1000" := congrArg Prod.snd hraw
  have hthousand : numberOf "1000" = some (.ofNat 1000) := by decide +kernel
  cases hthousand.symm.trans hn
  decide

/-- A market at a negative price. -/
def giveaway : Config.Exchange :=
  { name := "Paper", adapter := "paper", other := .ofList [("price.btc_usd", "-100")] }

/-- The price is accepted and quoted, and the best bid of its book is above the best ask. -/
theorem giveaway_upsideDown : (init giveaway {}).1 = .ok () ∧ ¬ QuotesTradable giveaway ∧
    ∃ b bid ask,
      (exchange.price "btc_usd").Gives dawn (Desk.opened giveaway {} dawn).world
        (Decimal.ofNat 100).neg ∧
      (exchange.orderBook "btc_usd").Gives dawn (Desk.opened giveaway {} dawn).world b ∧
      b.bestBid = some bid ∧ b.bestAsk = some ask ∧ bid.render = "-99.900" ∧
      ask.render = "-100.100" := by
  have hinit : (init giveaway {}).1 = .ok () := by decide +kernel
  have hprice : (exchange.price "btc_usd").Gives dawn (Desk.opened giveaway {} dawn).world
      (Decimal.ofNat 100).neg := by
    show (_ : Except Fault Decimal) = _
    decide +kernel
  refine ⟨hinit, fun h => absurd (h.pos (gives_price_iff.mp hprice)) (by decide), ?_⟩
  have hbest : (((exchange.orderBook "btc_usd").run.run dawn
      (Desk.opened giveaway {} dawn).world).1.toOption.map fun b =>
        (b.bestBid.map (·.render), b.bestAsk.map (·.render))) =
      some (some "-99.900", some "-100.100") := by
    decide +kernel
  cases hb : ((exchange.orderBook "btc_usd").run.run dawn
      (Desk.opened giveaway {} dawn).world).1 with
  | error f =>
    rw [hb] at hbest
    cases hbest
  | ok b =>
    rw [hb] at hbest
    obtain ⟨hbid, hask⟩ := Prod.ext_iff.mp (Option.some.inj hbest)
    obtain ⟨bid, hbid, hbid'⟩ := Option.map_eq_some_iff.mp hbid
    obtain ⟨ask, hask, hask'⟩ := Option.map_eq_some_iff.mp hask
    exact ⟨b, bid, ask, hprice, hb, hbid, hask, hbid', hask'⟩

end Rehearsed

end TradingBot
