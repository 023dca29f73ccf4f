import TradingBot.Exchange.Api

/-!
# Parts of a world that a program leaves alone

**The property** (`Program.Leaves`). Wherever a program writes, a part of the world stays as it was.
Whatever happens to the world while the program waits does not count against it.

**Theorem (`Program.Leaves.resume`).** A turn of such a program keeps the part, and so will all the
turns that are left.
-/

namespace TradingBot

namespace Program

variable {ω σ α β γ : Type} {part : ω → γ}

/-- From a world on, the program keeps a part of it, and it does so after each wait in whatever
world it finds. -/
inductive Leaves (part : ω → γ) : Program ω α → ω → Prop
  | done (a : α) (w : ω) : Leaves part (done a) w
  | read {next : ω → Program ω α} {w : ω} : Leaves part (next w) w → Leaves part (read next) w
  | write {next : Program ω α} {w w' : ω} : part w' = part w → Leaves part next w' →
      Leaves part (write w' next) w
  | wait {ms : Nat} {next : Program ω α} {w : ω} : (∀ w', Leaves part next w') →
      Leaves part (wait ms next) w
  | clock {next : Timestamp → Program ω α} {w : ω} : (∀ t, Leaves part (next t) w) →
      Leaves part (clock next) w
  | requestStop {next : Program ω α} {w : ω} : Leaves part next w → Leaves part (requestStop next) w
  | log {line : LogLine} {next : Program ω α} {w : ω} : Leaves part next w →
      Leaves part (log line next) w

theorem Leaves.bind {p : Program ω α} {k : α → Program ω β} {w : ω} (hp : p.Leaves part w)
    (hk : ∀ a w, (k a).Leaves part w) : (p >>= k).Leaves part w := by
  show (p.bind k).Leaves part w
  induction hp with
  | done a w => exact hk a w
  | read _ ih => exact .read ih
  | write hw _ ih => exact .write hw ih
  | wait _ ih => exact .wait ih
  | clock _ ih => exact .clock ih
  | requestStop _ ih => exact .requestStop ih
  | log _ ih => exact .log ih

theorem leaves_zoom {slot : Slot ω σ} (hpart : ∀ s w, part (slot.set s w) = part w)
    (p : Program σ α) (w : ω) : (p.zoom slot).Leaves part w := by
  induction p generalizing w with
  | done a => exact .done a w
  | read next ih => exact .read (ih _ w)
  | write s next ih => exact .read (.write (hpart s w) (ih _))
  | wait ms next ih => exact .wait ih
  | clock next ih => exact .clock fun t => ih t w
  | requestStop next ih => exact .requestStop (ih w)
  | log line next ih => exact .log (ih w)

/-- **A turn keeps what the program leaves alone**, and so will every later one. -/
theorem Leaves.resume {p : Program ω α} {w : ω} (h : p.Leaves part w) (now : Timestamp) :
    part (p.resume now w).world = part w ∧
      ∀ ms q, (p.resume now w).rest = .inr (ms, q) → ∀ w', q.Leaves part w' := by
  induction h with
  | done a w => exact ⟨rfl, fun ms q hq => by cases hq⟩
  | read _ ih | requestStop _ ih | log _ ih => exact ih
  | write hw _ ih => exact ⟨ih.1.trans hw, ih.2⟩
  | @wait ms next w hq ih =>
    cases ms with
    | zero => exact ih w
    | succ ms =>
      refine ⟨rfl, fun k q h => ?_⟩
      cases h
      exact hq
  | clock _ ih => exact ih now

theorem Leaves.run {p : Program ω α} {w : ω} (h : p.Leaves part w) (now : Timestamp) :
    part (p.run now w).2 = part w := by
  induction h with
  | done a w => rfl
  | read _ ih | requestStop _ ih | log _ ih => exact ih
  | write hw _ ih => exact ih.trans hw
  | wait _ ih => exact ih _
  | clock _ ih => exact ih now

end Program

namespace Call

variable {ω σ α β γ : Type} {part : ω → γ} {w : ω}

theorem leaves_pure (a : α) (w : ω) : (pure a : Call ω α).run.Leaves part w := .done _ w

theorem leaves_bind {c : Call ω α} {k : α → Call ω β} (hc : c.run.Leaves part w)
    (hk : ∀ a w, (k a).run.Leaves part w) : (c >>= k).run.Leaves part w := by
  refine Program.Leaves.bind hc fun r w' => ?_
  cases r with
  | ok a => exact hk a w'
  | error f => exact .done _ w'

theorem leaves_lift {p : Program ω α} (hp : p.Leaves part w) : (lift p).run.Leaves part w :=
  Program.Leaves.bind hp fun _ w' => .done _ w'

theorem leaves_zoom {slot : Program.Slot ω σ} (hpart : ∀ s w, part (slot.set s w) = part w)
    (c : Call σ α) (w : ω) : (c.zoom slot).run.Leaves part w :=
  Program.leaves_zoom hpart c.run w

theorem leaves_ofExcept (r : Except ApiError α) (w : ω) :
    (ofExcept r : Call ω α).run.Leaves part w := by
  cases r <;> exact .done _ w

theorem leaves_compute (r : Except Crash α) (w : ω) :
    (compute r : Call ω α).run.Leaves part w := by
  cases r <;> exact .done _ w

end Call

end TradingBot
