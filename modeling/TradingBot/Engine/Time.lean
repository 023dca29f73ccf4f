import TradingBot.Engine.Step

/-!
# An engine in time

**Settling** (`Engine.settle`). Moves take no time. At one point in time the start at work makes
moves until it waits or has ended. It makes at most two for each market and a few more, because it
passes the pause between two cycles only as time goes by.

**Time** (`Engine.advance`, `Engine.join`). Time jumps from one waking of the start at work to the
next, up to a given time or until the start has ended.
-/

namespace TradingBot.Engine

variable {ω ς : Type}

def workFor : Nat → Engine ω ς → Engine ω ς
  | 0, e => e
  | n + 1, e => if e.isIdle || e.isAsleep then e else e.work.workFor n

/-- The markets that a run of the engine trades on. -/
def width (e : Engine ω ς) : Nat :=
  match e.setup.source.load with
  | .ok config => config.enabledMarkets.length
  | .error _ => 0

/-- More moves than can be made at one point in time. -/
def movesAtOnce (width : Nat) : Nat := 2 * width + 10

/-- Makes all moves of this point in time. -/
def settle (e : Engine ω ς) : Engine ω ς := e.workFor (movesAtOnce e.width)

/-- Whether the start at work goes on by itself no later than `limit`. -/
def wakesBy (limit : Nat) (e : Engine ω ς) : Bool := !e.isIdle && e.wake ≤ limit

/-- Jumps from waking to waking, as long as they are no later than `limit`. -/
def jump (moves limit : Nat) : Nat → Engine ω ς → Engine ω ς
  | 0, e => e
  | n + 1, e =>
    let e := e.workFor moves
    if e.wakesBy limit then { e with now := max e.now e.wake }.jump moves limit n else e

/-- All that happens by itself up to a time. -/
def runUntil (limit : Nat) (e : Engine ω ς) : Engine ω ς :=
  e.jump (movesAtOnce e.width) limit (limit - e.now + 1)

def advance (ms : Nat) (e : Engine ω ς) : Engine ω ς :=
  { e.runUntil (e.now + ms) with now := e.now + ms }

/-- Lets time pass until the start at work has ended, but not beyond `limit`. -/
def join (limit : Nat) (e : Engine ω ς) : Engine ω ς :=
  let e' := e.runUntil limit
  if e'.isIdle then e' else { e' with now := max e.now limit }

end TradingBot.Engine
