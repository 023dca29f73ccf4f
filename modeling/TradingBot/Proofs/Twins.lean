import Mathlib.Data.Sum.Basic
import TradingBot.Exchange.Api

/-!
# Worlds that a program cannot tell apart

**The relation** (`Program.Twin`). Two programs that do the same in worlds that are related: they
read and write related worlds, and in all else they are equal, up to the value that they end with.

**Rules.** One for each way to put programs together. A program over a part of a world that related
worlds have in common is its own twin (`Program.twin_zoom`).

**Theorem (`Program.Twin.resume`).** Turns of such programs end alike: with related worlds, and with
one value or with programs that are twins again.
-/

namespace TradingBot

namespace Program

variable {ω σ α β : Type} {R : ω → ω → Prop}

/-- In related worlds, the programs do the same. -/
inductive Twin (R : ω → ω → Prop) : Program ω α → Program ω α → Prop
  | done (a : α) : Twin R (done a) (done a)
  | read {next next' : ω → Program ω α} : (∀ w w', R w w' → Twin R (next w) (next' w')) →
      Twin R (read next) (read next')
  | write {w w' : ω} {next next' : Program ω α} : R w w' → Twin R next next' →
      Twin R (write w next) (write w' next')
  | wait (ms : Nat) {next next' : Program ω α} : Twin R next next' →
      Twin R (wait ms next) (wait ms next')
  | clock {next next' : Timestamp → Program ω α} : (∀ t, Twin R (next t) (next' t)) →
      Twin R (clock next) (clock next')
  | requestStop {next next' : Program ω α} : Twin R next next' →
      Twin R (requestStop next) (requestStop next')
  | log (line : LogLine) {next next' : Program ω α} : Twin R next next' →
      Twin R (log line next) (log line next')

theorem Twin.bind {p p' : Program ω α} {k k' : α → Program ω β} (hp : p.Twin R p')
    (hk : ∀ a, (k a).Twin R (k' a)) : (p >>= k).Twin R (p' >>= k') := by
  show (p.bind k).Twin R (p'.bind k')
  induction hp with
  | done a => exact hk a
  | read _ ih => exact .read ih
  | write hw _ ih => exact .write hw ih
  | wait ms _ ih => exact .wait ms ih
  | clock _ ih => exact .clock ih
  | requestStop _ ih => exact .requestStop ih
  | log line _ ih => exact .log line ih

theorem twin_zoom {slot : Slot ω σ} (hget : ∀ {w w'}, R w w' → slot.get w = slot.get w')
    (hset : ∀ s {w w'}, R w w' → R (slot.set s w) (slot.set s w')) (p : Program σ α) :
    (p.zoom slot).Twin R (p.zoom slot) := by
  induction p with
  | done a => exact .done a
  | read next ih => exact .read fun w w' hw => hget hw ▸ ih (slot.get w)
  | write s next ih => exact .read fun w w' hw => .write (hset s hw) ih
  | wait ms next ih => exact .wait ms ih
  | clock next ih => exact .clock ih
  | requestStop next ih => exact .requestStop ih
  | log line next ih => exact .log line ih

/-- What is left after a turn: one value, or a wait of one length before twins. -/
def TwinRest (R : ω → ω → Prop) : α ⊕ Nat × Program ω α → α ⊕ Nat × Program ω α → Prop :=
  Sum.LiftRel Eq fun q q' => q.1 = q'.1 ∧ q.2.Twin R q'.2

/-- **A turn of twins** ends alike. -/
theorem Twin.resume {p p' : Program ω α} (h : p.Twin R p') {w w' : ω} (hw : R w w')
    (now : Timestamp) : TwinRest R (p.resume now w).rest (p'.resume now w').rest ∧
      R (p.resume now w).world (p'.resume now w').world := by
  induction h generalizing w w' with
  | done a => exact ⟨.inl rfl, hw⟩
  | read _ ih => exact ih w w' hw hw
  | write hw' _ ih => exact ih hw'
  | wait ms hq ih =>
    cases ms with
    | zero => exact ih hw
    | succ ms => exact ⟨.inr ⟨rfl, hq⟩, hw⟩
  | clock _ ih => exact ih now hw
  | requestStop _ ih | log _ _ ih => exact ih hw

theorem Twin.run {p p' : Program ω α} (h : p.Twin R p') {w w' : ω} (hw : R w w')
    (now : Timestamp) : (p.run now w).1 = (p'.run now w').1 ∧
      R (p.run now w).2 (p'.run now w').2 := by
  induction h generalizing w w' with
  | done a => exact ⟨rfl, hw⟩
  | read _ ih => exact ih w w' hw hw
  | write hw' _ ih => exact ih hw'
  | wait _ _ ih | requestStop _ ih | log _ _ ih => exact ih hw
  | clock _ ih => exact ih now hw

end Program

namespace Call

variable {ω σ α β : Type} {R : ω → ω → Prop}

theorem twin_pure (a : α) : (pure a : Call ω α).run.Twin R (pure a : Call ω α).run := .done _

theorem twin_bind {c c' : Call ω α} {k k' : α → Call ω β} (hc : c.run.Twin R c'.run)
    (hk : ∀ a, (k a).run.Twin R (k' a).run) : (c >>= k).run.Twin R (c' >>= k').run := by
  refine Program.Twin.bind hc fun r => ?_
  cases r with
  | ok a => exact hk a
  | error f => exact .done _

theorem twin_lift {p p' : Program ω α} (h : p.Twin R p') : (lift p).run.Twin R (lift p').run :=
  Program.Twin.bind h fun _ => .done _

theorem twin_ofExcept (r : Except ApiError α) :
    (ofExcept r : Call ω α).run.Twin R (ofExcept r : Call ω α).run := by
  cases r <;> exact .done _

theorem twin_compute (r : Except Crash α) :
    (compute r : Call ω α).run.Twin R (compute r : Call ω α).run := by
  cases r <;> exact .done _

end Call

end TradingBot
