import TradingBot.Config.Codec
import TradingBot.Config.Basic
import TradingBot.Yaml.Dialect

/-!
# A directory of configuration files

**The type** (`Config.Directory`). A directory's path in a tree of files. Each section stands in a
file of its own under its own name.

**The source** (`Config.Directory.toSource`). Without a file for alerts there are none. The lists
of markets and of strategies may be left out of their files.
-/

namespace TradingBot.Config

/-- A directory in a tree of files, by its path. -/
structure Directory where
  path : String
  tree : FileTree

namespace Directory

def pathOf (d : Directory) (name : String) : String :=
  if d.path = "" ∨ d.path.endsWith "/" then d.path ++ name else d.path ++ "/" ++ name

/-- A file read as a record with one field. -/
def read {α : Type} (d : Directory) (name : String) (decode : Fields Yaml.Node → Option α)
    (field : String) : Section α :=
  let path := d.pathOf name
  { path := some path
    content :=
      match d.tree.text path with
      | .error failure => .error (.unreadable path failure)
      | .ok text =>
        match (Yaml.Node.parse text).bind (Yaml.dialect.record [⟨field, []⟩]) |>.bind decode with
        | none => .error (.malformed path)
        | some a => .ok a }

def engineFile : String := "engine.yaml"

def exchangeFile : String := "exchange.yaml"

def marketsFile : String := "markets.yaml"

def strategiesFile : String := "strategies.yaml"

def alertsFile : String := "alerts.yaml"

def paths (d : Directory) : List String :=
  [engineFile, exchangeFile, marketsFile, strategiesFile, alertsFile].map d.pathOf

def toSource (d : Directory) : Source where
  engine := d.read engineFile (·.required "engine" (Engine.decode Yaml.dialect)) "engine"
  exchange := d.read exchangeFile (·.required "exchange" (Exchange.decode Yaml.dialect)) "exchange"
  markets :=
    d.read marketsFile (·.optional "markets" [] (Yaml.dialect.list (Market.decode Yaml.dialect)))
      "markets"
  strategies :=
    d.read strategiesFile
      (·.optional "strategies" [] (Yaml.dialect.list (Strategy.decode Yaml.dialect))) "strategies"
  alerts :=
    if (d.tree.find (d.pathOf alertsFile)).isOk then
      d.read alertsFile (·.optional "alerts" {} (Alerts.decode Yaml.dialect)) "alerts"
    else { content := .ok {} }

end Directory

end TradingBot.Config
