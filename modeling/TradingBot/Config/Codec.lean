import TradingBot.Config.Basic
import TradingBot.Json.Dialect

/-!
# Reading and writing configurations

**Reading** (`decode`). Each section is a record of any dialect. Fields with a default may be left
out. A strategy's class may also be written `beanName`.

**Writing** (`encode`). All fields are written as JSON, an absent one as null.
-/

namespace TradingBot.Config

variable {ν : Type}

/-! ## Engine -/

def Engine.fields : List FieldName :=
  [⟨"botId", []⟩, ⟨"botName", []⟩, ⟨"emergencyStopCurrency", []⟩, ⟨"emergencyStopBalance", []⟩,
    ⟨"tradeCycleInterval", []⟩]

def Engine.decode (d : Dialect ν) (v : ν) : Option Engine := do
  let r ← d.record Engine.fields v
  return {
    botId := ← r.required "botId" d.text
    botName := ← r.optional "botName" "" d.text
    stopCurrency := ← r.optional "emergencyStopCurrency" "" d.text
    stopBalance := ← r.optional "emergencyStopBalance" .zero d.decimal
    cycleInterval := ← r.required "tradeCycleInterval" d.uint64 }

def Engine.encode (e : Engine) : Json :=
  .obj [("botId", .str e.botId), ("botName", .str e.botName),
    ("emergencyStopCurrency", .str e.stopCurrency),
    ("emergencyStopBalance", .ofDecimal e.stopBalance),
    ("tradeCycleInterval", .ofNat e.cycleInterval.toNat)]

/-! ## Exchange -/

def Network.fields : List FieldName :=
  [⟨"connectionTimeout", []⟩, ⟨"nonFatalErrorCodes", []⟩, ⟨"nonFatalErrorMessages", []⟩]

def Network.decode (d : Dialect ν) (v : ν) : Option Network := do
  let r ← d.record Network.fields v
  return {
    timeout := ← r.optional "connectionTimeout" 30 d.uint64
    transientCodes := ← r.optional "nonFatalErrorCodes" [] (d.list d.uint16)
    transientMessages := ← r.optional "nonFatalErrorMessages" [] (d.list d.text) }

def Network.encode (n : Network) : Json :=
  .obj [("connectionTimeout", .ofNat n.timeout.toNat),
    ("nonFatalErrorCodes", .ofList (fun code => .ofNat code.toNat) n.transientCodes),
    ("nonFatalErrorMessages", .ofList .str n.transientMessages)]

def Exchange.fields : List FieldName :=
  [⟨"name", []⟩, ⟨"adapter", []⟩, ⟨"authenticationConfig", []⟩, ⟨"networkConfig", []⟩,
    ⟨"otherConfig", []⟩]

def Exchange.decode (d : Dialect ν) (v : ν) : Option Exchange := do
  let r ← d.record Exchange.fields v
  return {
    name := ← r.required "name" d.text
    adapter := ← r.required "adapter" d.text
    authentication := ← r.optional "authenticationConfig" {} (d.dict d.text)
    network := ← r.optional "networkConfig" none (d.nullable (Network.decode d))
    other := ← r.optional "otherConfig" {} (d.dict d.text) }

def Exchange.encode (e : Exchange) : Json :=
  .obj [("name", .str e.name), ("adapter", .str e.adapter),
    ("authenticationConfig", .ofDict .str e.authentication),
    ("networkConfig", .ofOption Network.encode e.network),
    ("otherConfig", .ofDict .str e.other)]

/-! ## Markets and strategies -/

def Market.fields : List FieldName :=
  [⟨"id", []⟩, ⟨"name", []⟩, ⟨"baseCurrency", []⟩, ⟨"counterCurrency", []⟩, ⟨"enabled", []⟩,
    ⟨"tradingStrategyId", []⟩]

def Market.decode (d : Dialect ν) (v : ν) : Option Market := do
  let r ← d.record Market.fields v
  return {
    id := ← r.required "id" d.text
    name := ← r.required "name" d.text
    base := ← r.required "baseCurrency" d.text
    counter := ← r.required "counterCurrency" d.text
    enabled := ← r.optional "enabled" false d.flag
    strategyId := ← r.required "tradingStrategyId" d.text }

def Market.encode (m : Market) : Json :=
  .obj [("id", .str m.id), ("name", .str m.name), ("baseCurrency", .str m.base),
    ("counterCurrency", .str m.counter), ("enabled", .bool m.enabled),
    ("tradingStrategyId", .str m.strategyId)]

def Strategy.fields : List FieldName :=
  [⟨"id", []⟩, ⟨"name", []⟩, ⟨"description", []⟩, ⟨"className", ["beanName"]⟩, ⟨"configItems", []⟩]

def Strategy.decode (d : Dialect ν) (v : ν) : Option Strategy := do
  let r ← d.record Strategy.fields v
  return {
    id := ← r.required "id" d.text
    name := ← r.required "name" d.text
    description := ← r.optional "description" "" d.text
    className := ← r.required "className" d.text
    items := ← r.optional "configItems" {} (d.dict d.text) }

def Strategy.encode (s : Strategy) : Json :=
  .obj [("id", .str s.id), ("name", .str s.name), ("description", .str s.description),
    ("className", .str s.className), ("configItems", .ofDict .str s.items)]

/-! ## Alerts -/

def Alerts.fields : List FieldName := [⟨"enabled", []⟩, ⟨"webhookUrl", []⟩]

def Alerts.decode (d : Dialect ν) (v : ν) : Option Alerts := do
  let r ← d.record Alerts.fields v
  return {
    enabled := ← r.optional "enabled" false d.flag
    webhook := ← r.optional "webhookUrl" none (d.nullable d.text) }

def Alerts.encode (a : Alerts) : Json :=
  .obj [("enabled", .bool a.enabled), ("webhookUrl", .ofOption .str a.webhook)]

/-! ## The whole -/

def fields : List FieldName :=
  [⟨"engine", []⟩, ⟨"exchange", []⟩, ⟨"markets", []⟩, ⟨"strategies", []⟩, ⟨"alerts", []⟩]

def decode (d : Dialect ν) (v : ν) : Option Config := do
  let r ← d.record fields v
  return {
    engine := ← r.required "engine" (Engine.decode d)
    exchange := ← r.required "exchange" (Exchange.decode d)
    markets := ← r.optional "markets" [] (d.list (Market.decode d))
    strategies := ← r.optional "strategies" [] (d.list (Strategy.decode d))
    alerts := ← r.optional "alerts" {} (Alerts.decode d) }

def encode (c : Config) : Json :=
  .obj [("engine", c.engine.encode), ("exchange", c.exchange.encode),
    ("markets", .ofList Market.encode c.markets),
    ("strategies", .ofList Strategy.encode c.strategies), ("alerts", c.alerts.encode)]

end TradingBot.Config
