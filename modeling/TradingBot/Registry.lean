import TradingBot.Paper
import TradingBot.Strategy

/-!
# The registry

**The type** (`Registry`). The adapters and strategies that a configuration can name, by their
registered names. A later registration under a name replaces an earlier one.

**Bundled components** (`Registry.bundled`). The paper exchange and the market watch.
-/

namespace TradingBot

structure Registry (ω ς : Type) where
  adapters : Dict (Adapter ω) := {}
  strategies : Dict (Strategy ω ς) := {}

namespace Registry

variable {ω ς : Type}

def paperId : String := "paper"

def marketWatchId : String := "market-watch"

def addAdapter (id : String) (a : Adapter ω) (r : Registry ω ς) : Registry ω ς :=
  { r with adapters := r.adapters.insert id a }

def addStrategy (id : String) (s : Strategy ω ς) (r : Registry ω ς) : Registry ω ς :=
  { r with strategies := r.strategies.insert id s }

def adapter? (r : Registry ω ς) (id : String) : Option (Adapter ω) := r.adapters.get? id

def strategy? (r : Registry ω ς) (id : String) : Option (Strategy ω ς) := r.strategies.get? id

/-- The registered names of adapters, in order. -/
def adapterIds (r : Registry ω ς) : List String := r.adapters.keys

/-- The registered names of strategies, in order. -/
def strategyIds (r : Registry ω ς) : List String := r.strategies.keys

/-- The paper exchange in its part of the world, and the market watch. -/
def bundled (slot : Program.Slot ω Paper.World) (watch : Strategy ω ς) : Registry ω ς :=
  ({} : Registry ω ς).addAdapter paperId (Paper.adapter.zoom slot)
    |>.addStrategy marketWatchId watch

end Registry

end TradingBot
