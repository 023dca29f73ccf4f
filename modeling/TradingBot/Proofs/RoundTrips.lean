import TradingBot.Market
import TradingBot.Config.Codec
import TradingBot.Proofs.DecimalText
import TradingBot.Proofs.Rewriting

/-!
# JSON round trips

**Reading back.** Texts, flags, numbers, lists and maps are read back as they were written. A record
is written under the names of its fields, so reading it keeps all members.

**Indifference.** Each type has its shape. Its reader asks for the declared fields alone, and each
field's reader is indifferent in turn.

**Theorem (`Json.codecs_faithful`).** Configurations, balances, markets and order books are read
back from their JSON, and rewriting it does not change what is read: neither the order of fields nor
fields that nobody declared nor the choice between `className` and `beanName` matters.
-/

namespace TradingBot

namespace Json

variable {α : Type} {fields : List FieldName} {members : List (String × Json)}

/-! ## Reading back -/

@[simp] theorem text_str (s : String) : dialect.text (.str s) = some s := rfl

@[simp] theorem flag_bool (b : Bool) : dialect.flag (.bool b) = some b := rfl

@[simp] theorem decimal_ofDecimal (d : Decimal) : dialect.decimal (.ofDecimal d) = some d :=
  d.parse_render

theorem natural_ofNat {n bound : Nat} (h : n ≤ bound) :
    dialect.natural bound (.ofNat n) = some n := by
  show natural? bound (.int n) = some n
  rw [natural?, if_pos ⟨Int.natCast_nonneg n, by omega⟩, Int.toNat_natCast]

@[simp] theorem uint16_ofNat (n : UInt16) : dialect.uint16 (.ofNat n.toNat) = some n := by
  have h : n.toNat ≤ UInt16.size - 1 := Nat.le_sub_one_of_lt n.toNat_lt
  rw [Dialect.uint16, natural_ofNat h, Option.map_some, UInt16.ofNat_toNat]

@[simp] theorem uint64_ofNat (n : UInt64) : dialect.uint64 (.ofNat n.toNat) = some n := by
  have h : n.toNat ≤ UInt64.size - 1 := Nat.le_sub_one_of_lt n.toNat_lt
  rw [Dialect.uint64, natural_ofNat h, Option.map_some, UInt64.ofNat_toNat]

theorem list_ofList {read : Json → Option α} {write : α → Json} (h : ∀ a, read (write a) = some a)
    (l : List α) : dialect.list read (.ofList write l) = some l := by
  show (l.map write).mapM read = some l
  induction l with
  | nil => rfl
  | cons a l ih => simp [List.map_cons, List.mapM_cons, h, ih]

theorem dict_ofDict {read : Json → Option α} {write : α → Json} (h : ∀ a, read (write a) = some a)
    (d : Dict α) : dialect.dict read (.ofDict write d) = some d := by
  have hentries : readEntries read (d.entries.map fun e => (e.1, write e.2)) = some d.entries := by
    unfold readEntries
    induction d.entries with
    | nil => rfl
    | cons e entries ih => simp [List.map_cons, List.mapM_cons, h, ih]
  show dialect.dict read (.obj (d.entries.map fun e => (e.1, write e.2))) = some d
  rw [dict_obj, hentries, Option.map_some, Dict.ofList_entries]

theorem nullable_ofOption {read : Json → Option α} {write : α → Json}
    (h : ∀ a, read (write a) = some a) (hnull : ∀ a, (write a).isNull = false) (o : Option α) :
    dialect.nullable read (.ofOption write o) = some o := by
  cases o with
  | none => rfl
  | some a =>
    have ha : dialect.isAbsent (write a) = false := hnull a
    simp [Dialect.nullable, ofOption, ha, h]

/-- A record that is written under the names of its fields is read with all its members. -/
theorem record_obj (hfields : FieldName.Distinct fields)
    (hnames : members.map (·.1) = fields.map (·.name)) :
    dialect.record fields (.obj members) = some members :=
  Fields.collect_of_names hfields hnames

end Json

open Json

/-! ## The sections of a configuration -/

namespace Config

theorem Engine.decode_encode (e : Engine) : Engine.decode dialect e.encode = some e := by
  rw [Engine.decode, Engine.encode, record_obj (by decide) rfl]
  simp [Fields.required, Fields.optional, List.lookup_cons]

theorem Network.decode_encode (n : Network) : Network.decode dialect n.encode = some n := by
  rw [Network.decode, Network.encode, record_obj (by decide) rfl]
  simp [Fields.optional, List.lookup_cons, list_ofList uint16_ofNat,
    list_ofList text_str]

theorem Exchange.decode_encode (e : Exchange) : Exchange.decode dialect e.encode = some e := by
  have hnetwork := nullable_ofOption Network.decode_encode (fun _ => rfl) e.network
  rw [Exchange.decode, Exchange.encode, record_obj (by decide) rfl]
  simp [Fields.required, Fields.optional, List.lookup_cons, dict_ofDict text_str, hnetwork]

theorem Market.decode_encode (m : Market) : Market.decode dialect m.encode = some m := by
  rw [Market.decode, Market.encode, record_obj (by decide) rfl]
  simp [Fields.required, Fields.optional, List.lookup_cons]

theorem Strategy.decode_encode (s : Strategy) : Strategy.decode dialect s.encode = some s := by
  rw [Strategy.decode, Strategy.encode, record_obj (by decide) rfl]
  simp [Fields.required, Fields.optional, List.lookup_cons, dict_ofDict text_str]

theorem Alerts.decode_encode (a : Alerts) : Alerts.decode dialect a.encode = some a := by
  have hwebhook := nullable_ofOption text_str (fun _ => rfl) a.webhook
  rw [Alerts.decode, Alerts.encode, record_obj (by decide) rfl]
  simp [Fields.optional, List.lookup_cons, hwebhook]

/-- **A configuration is read back** from its JSON, with all its sections. -/
theorem decode_encode (c : Config) : Config.decode dialect c.encode = some c := by
  rw [Config.decode, Config.encode, record_obj (by decide) rfl]
  simp [Fields.required, Fields.optional, List.lookup_cons, Engine.decode_encode,
    Exchange.decode_encode, Alerts.decode_encode, list_ofList Market.decode_encode,
    list_ofList Strategy.decode_encode]

def Engine.shape : Shape := .record Engine.fields fun _ => .leaf

def Network.shape : Shape :=
  .record Network.fields fun
    | "nonFatalErrorCodes" | "nonFatalErrorMessages" => .list .leaf
    | _ => .leaf

def Exchange.shape : Shape :=
  .record Exchange.fields fun
    | "networkConfig" => .nullable Network.shape
    | "authenticationConfig" | "otherConfig" => .dict .leaf
    | _ => .leaf

def Market.shape : Shape := .record Market.fields fun _ => .leaf

def Strategy.shape : Shape :=
  .record Strategy.fields fun
    | "configItems" => .dict .leaf
    | _ => .leaf

def Alerts.shape : Shape :=
  .record Alerts.fields fun
    | "webhookUrl" => .nullable .leaf
    | _ => .leaf

def shape : Shape :=
  .record fields fun
    | "engine" => Engine.shape
    | "exchange" => Exchange.shape
    | "markets" => .list Market.shape
    | "strategies" => .list Strategy.shape
    | "alerts" => Alerts.shape
    | _ => .leaf

theorem Engine.indifferent : Indifferent Engine.shape (Engine.decode dialect) := by
  refine indifferent_record (by decide) fun r r' h => ?_
  rw [h.required "botId" indifferent_leaf, h.optional "botName" indifferent_leaf,
    h.optional "emergencyStopCurrency" indifferent_leaf,
    h.optional "emergencyStopBalance" indifferent_leaf,
    h.required "tradeCycleInterval" indifferent_leaf]

theorem Network.indifferent : Indifferent Network.shape (Network.decode dialect) := by
  refine indifferent_record (by decide) fun r r' h => ?_
  rw [h.optional "connectionTimeout" indifferent_leaf,
    h.optional "nonFatalErrorCodes" indifferent_leaf.list,
    h.optional "nonFatalErrorMessages" indifferent_leaf.list]

theorem Exchange.indifferent : Indifferent Exchange.shape (Exchange.decode dialect) := by
  refine indifferent_record (by decide) fun r r' h => ?_
  rw [h.required "name" indifferent_leaf, h.required "adapter" indifferent_leaf,
    h.optional "authenticationConfig" indifferent_leaf.dict,
    h.optional "networkConfig" Network.indifferent.nullable,
    h.optional "otherConfig" indifferent_leaf.dict]

theorem Market.indifferent : Indifferent Market.shape (Market.decode dialect) := by
  refine indifferent_record (by decide) fun r r' h => ?_
  rw [h.required "id" indifferent_leaf, h.required "name" indifferent_leaf,
    h.required "baseCurrency" indifferent_leaf, h.required "counterCurrency" indifferent_leaf,
    h.optional "enabled" indifferent_leaf, h.required "tradingStrategyId" indifferent_leaf]

theorem Strategy.indifferent : Indifferent Strategy.shape (Strategy.decode dialect) := by
  refine indifferent_record (by decide) fun r r' h => ?_
  rw [h.required "id" indifferent_leaf, h.required "name" indifferent_leaf,
    h.optional "description" indifferent_leaf, h.required "className" indifferent_leaf,
    h.optional "configItems" indifferent_leaf.dict]

theorem Alerts.indifferent : Indifferent Alerts.shape (Alerts.decode dialect) := by
  refine indifferent_record (by decide) fun r r' h => ?_
  rw [h.optional "enabled" indifferent_leaf, h.optional "webhookUrl" indifferent_leaf.nullable]

theorem indifferent : Indifferent Config.shape (Config.decode dialect) := by
  refine indifferent_record (by decide) fun r r' h => ?_
  rw [h.required "engine" Engine.indifferent, h.required "exchange" Exchange.indifferent,
    h.optional "markets" Market.indifferent.list,
    h.optional "strategies" Strategy.indifferent.list, h.optional "alerts" Alerts.indifferent]

end Config

/-! ## Balances, markets and order books -/

theorem Balances.decode_encode (b : Balances) : Balances.decode dialect b.encode = some b := by
  rw [Balances.decode, Balances.encode, record_obj (by decide) rfl]
  simp [Fields.optional, List.lookup_cons, dict_ofDict decimal_ofDecimal]

theorem Market.decode_encode (m : Market) : Market.decode dialect m.encode = some m := by
  rw [Market.decode, Market.encode, record_obj (by decide) rfl]
  simp [Fields.required, List.lookup_cons]

@[simp] theorem Side.decode_encode (s : Side) : Side.decode dialect s.encode = some s := by
  cases s <;> rfl

theorem Level.decode_encode (l : Level) : Level.decode dialect l.encode = some l := by
  rw [Level.decode, Level.encode, record_obj (by decide) rfl]
  simp [Fields.required, List.lookup_cons]

theorem OrderBook.decode_encode (b : OrderBook) :
    OrderBook.decode dialect b.encode = some b := by
  rw [OrderBook.decode, OrderBook.encode, record_obj (by decide) rfl]
  simp [Fields.required, List.lookup_cons, list_ofList Level.decode_encode]

def Balances.shape : Shape := .record Balances.fields fun _ => .dict .leaf

def Market.shape : Shape := .record Market.fields fun _ => .leaf

def Level.shape : Shape := .record Level.fields fun _ => .leaf

def OrderBook.shape : Shape :=
  .record OrderBook.fields fun
    | "sell_orders" | "buy_orders" => .list Level.shape
    | _ => .leaf

theorem Balances.indifferent : Indifferent Balances.shape (Balances.decode dialect) := by
  refine indifferent_record (by decide) fun r r' h => ?_
  rw [h.optional "available" indifferent_leaf.dict, h.optional "on_hold" indifferent_leaf.dict]

theorem Market.indifferent : Indifferent Market.shape (Market.decode dialect) := by
  refine indifferent_record (by decide) fun r r' h => ?_
  rw [h.required "id" indifferent_leaf, h.required "name" indifferent_leaf,
    h.required "base_currency" indifferent_leaf, h.required "counter_currency" indifferent_leaf]

theorem Level.indifferent : Indifferent Level.shape (Level.decode dialect) := by
  refine indifferent_record (by decide) fun r r' h => ?_
  rw [h.required "order_type" indifferent_leaf, h.required "price" indifferent_leaf,
    h.required "quantity" indifferent_leaf, h.required "total" indifferent_leaf]

theorem OrderBook.indifferent : Indifferent OrderBook.shape (OrderBook.decode dialect) := by
  refine indifferent_record (by decide) fun r r' h => ?_
  rw [h.required "market_id" indifferent_leaf, h.required "sell_orders" Level.indifferent.list,
    h.required "buy_orders" Level.indifferent.list]

/-- **The types are read back from their JSON**, and no rewriting of it is seen: fields in another
order, fields that nobody declared, a class under the name `beanName`. -/
theorem Json.codecs_faithful :
    Faithful (Config.decode dialect) Config.encode Config.shape ∧
      Faithful (Balances.decode dialect) Balances.encode Balances.shape ∧
      Faithful (Market.decode dialect) Market.encode Market.shape ∧
      Faithful (OrderBook.decode dialect) OrderBook.encode OrderBook.shape :=
  ⟨.of_indifferent Config.decode_encode Config.indifferent,
    .of_indifferent Balances.decode_encode Balances.indifferent,
    .of_indifferent Market.decode_encode Market.indifferent,
    .of_indifferent OrderBook.decode_encode OrderBook.indifferent⟩

/-! ## One configuration, rewritten -/

namespace Rehearsed

def frugal : Config where
  engine := { botId := "bot", stopBalance := ⟨150, 2, by decide, by decide⟩, cycleInterval := 60 }
  exchange := { name := "Paper", adapter := "paper", other := .ofList [("balance.BTC", "5")] }
  strategies := [{ id := "watch", name := "Watch", className := "market-watch" }]

/-- The configuration with its strategy written in some way. -/
def frugalWith (strategy : Json) : Json :=
  .obj [("engine", frugal.engine.encode), ("exchange", frugal.exchange.encode),
    ("markets", .arr []), ("strategies", .arr [strategy]), ("alerts", frugal.alerts.encode)]

/-- The strategy in older words: the class first and under its other name, and a field that nobody
reads. -/
def watchInOlderWords : Json :=
  .obj [("beanName", .str "market-watch"), ("singleton", .bool true), ("id", .str "watch"),
    ("name", .str "Watch"), ("description", .str ""), ("configItems", .obj [])]

theorem frugal_rewritten :
    Relation.EqvGen (Rewrite Config.shape) frugal.encode (frugalWith watchInOlderWords) := by
  have hlift {v v' : Json} (h : Rewrite Config.Strategy.shape v v') :
      Relation.EqvGen (Rewrite Config.shape) (frugalWith v) (frugalWith v') := by
    have hitem : Rewrite (.list Config.Strategy.shape) (.arr ([] ++ v :: []))
        (.arr ([] ++ v' :: [])) :=
      .inItem h
    have hfield : (⟨"strategies", []⟩ : FieldName) ∈ Config.fields := by decide
    refine .rel _ _ ?_
    show Rewrite Config.shape (.obj ([_, _, _] ++ ("strategies", .arr [v]) :: [_]))
      (.obj ([_, _, _] ++ ("strategies", .arr [v']) :: [_]))
    exact .inField hfield (FieldName.matches_name _) hitem
  -- The three changes, one after another: the order, the old spelling, a field nobody knows.
  let bean : Json := .str "market-watch"
  let front : List (String × Json) :=
    [("id", .str "watch"), ("name", .str "Watch"), ("description", .str "")]
  let rest : List (String × Json) := front ++ [("configItems", .obj [])]
  have hmoved : Rewrite Config.Strategy.shape
      (.obj (front ++ ("className", bean) :: [("configItems", .obj [])]))
      (.obj (("className", bean) :: rest)) := .reorder List.perm_middle
  have hclass : (⟨"className", ["beanName"]⟩ : FieldName) ∈ Config.Strategy.fields := by decide
  have hrespelled : Rewrite Config.Strategy.shape (.obj ([] ++ ("className", bean) :: rest))
      (.obj ([] ++ ("beanName", bean) :: rest)) := .respell hclass (by decide) (by decide)
  have hadded : Rewrite Config.Strategy.shape (.obj ([("beanName", bean)] ++ rest))
      (.obj ([("beanName", bean)] ++ ("singleton", .bool true) :: rest)) := .add (by decide)
  exact ((hlift hmoved).trans _ _ _ (hlift hrespelled)).trans _ _ _ (hlift hadded)

theorem codecs_rehearsed :
    Relation.EqvGen (Rewrite Config.shape) frugal.encode (frugalWith watchInOlderWords) ∧
      Config.decode dialect (frugalWith watchInOlderWords) = some frugal := by
  obtain ⟨⟨hback, hsame⟩, -⟩ := Json.codecs_faithful
  exact ⟨frugal_rewritten, (hsame _ _ frugal_rewritten).symm.trans (hback frugal)⟩

end Rehearsed

end TradingBot
