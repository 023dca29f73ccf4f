import TradingBot.Exchange.Api

/-!
# What a program may come to while others act

**Endings** (`Program.MayEnd`). The values and worlds that a program may end with, if at each of its
waits the world changes in some way that is allowed, and time passes as it will. A program that is
run at one moment ends so (`Program.mayEnd_run`), and so does one that goes on turn by turn
(`Program.MayEnd.of_resume`).

**Records** (`Exchange.noted`). An exchange with a record beside its world: each call leaves a note
of what was asked and of the reply. Nobody else writes to the record (`Call.mayEnd_noting`).
-/

namespace TradingBot

namespace Program

variable {ω σ α β : Type} {R : ω → ω → Prop}

/-! ## Endings -/

/-- The program may end with a value in a world, if the world may change by `R` while it waits. -/
def MayEnd (R : ω → ω → Prop) : Program ω α → ω → α → ω → Prop
  | done b, w, a, w' => b = a ∧ w = w'
  | read next, w, a, w' => (next w).MayEnd R w a w'
  | write w₁ next, _, a, w' => next.MayEnd R w₁ a w'
  | wait _ next, w, a, w' => ∃ w₁, R w w₁ ∧ next.MayEnd R w₁ a w'
  | clock next, w, a, w' => ∃ now, (next now).MayEnd R w a w'
  | requestStop next, w, a, w' => next.MayEnd R w a w'
  | log _ next, w, a, w' => next.MayEnd R w a w'

theorem mayEnd_pure {b a : α} {w w' : ω} :
    (pure b : Program ω α).MayEnd R w a w' ↔ b = a ∧ w = w' := Iff.rfl

theorem mayEnd_tell {level : LogLevel} {message : String} {fields : List (String × String)}
    {a : Unit} {w w' : ω} : (tell level message fields).MayEnd R w a w' ↔ w = w' :=
  and_iff_right rfl

theorem mayEnd_modify {f : ω → ω} {a : Unit} {w w' : ω} :
    (modify f).MayEnd R w a w' ↔ f w = w' := and_iff_right rfl

theorem mayEnd_bind {p : Program ω α} {f : α → Program ω β} {w w' : ω} {b : β} :
    (p >>= f).MayEnd R w b w' ↔ ∃ a w₁, p.MayEnd R w a w₁ ∧ (f a).MayEnd R w₁ b w' := by
  show (p.bind f).MayEnd R w b w' ↔ _
  induction p generalizing w with
  | done a =>
    constructor
    · exact fun h => ⟨a, w, ⟨rfl, rfl⟩, h⟩
    · rintro ⟨a', w₁, ⟨rfl, rfl⟩, h⟩
      exact h
  | read next ih => exact ih w
  | write w₁ next ih => exact ih
  | wait ms next ih =>
    constructor
    · rintro ⟨w₁, hR, h⟩
      obtain ⟨a, w₂, hp, hf⟩ := ih.mp h
      exact ⟨a, w₂, ⟨w₁, hR, hp⟩, hf⟩
    · rintro ⟨a, w₂, ⟨w₁, hR, hp⟩, hf⟩
      exact ⟨w₁, hR, ih.mpr ⟨a, w₂, hp, hf⟩⟩
  | clock next ih =>
    constructor
    · rintro ⟨now, h⟩
      obtain ⟨a, w₁, hp, hf⟩ := (ih now).mp h
      exact ⟨a, w₁, ⟨now, hp⟩, hf⟩
    · rintro ⟨a, w₁, ⟨now, hp⟩, hf⟩
      exact ⟨now, (ih now).mpr ⟨a, w₁, hp, hf⟩⟩
  | requestStop next ih => exact ih
  | log line next ih => exact ih

/-- Carried to its end at one moment, a program ends in one of the ways in which it may. -/
theorem mayEnd_run (hR : ∀ w, R w w) (p : Program ω α) (now : Timestamp) (w : ω) :
    p.MayEnd R w (p.run now w).1 (p.run now w).2 := by
  induction p generalizing w with
  | done a => exact ⟨rfl, rfl⟩
  | read next ih => exact ih w w
  | write w₁ next ih => exact ih w₁
  | wait ms next ih => exact ⟨w, hR w, ih w⟩
  | clock next ih => exact ⟨now, ih now w⟩
  | requestStop next ih => exact ih w
  | log line next ih => exact ih w

/-- A turn that ends the program ends it in one of these ways. A turn that comes to a wait leaves
the program to what may come after the wait. -/
theorem MayEnd.of_resume (hR : ∀ w, R w w) (p : Program ω α) (now : Timestamp) (w : ω) :
    (∀ a, (p.resume now w).rest = .inl a → p.MayEnd R w a (p.resume now w).world) ∧
      ∀ ms q w₁ a w', (p.resume now w).rest = .inr (ms, q) → R (p.resume now w).world w₁ →
        q.MayEnd R w₁ a w' → p.MayEnd R w a w' := by
  induction p generalizing w with
  | done a =>
    refine ⟨fun a' h => ?_, nofun⟩
    cases h
    exact ⟨rfl, rfl⟩
  | read next ih => exact ih w w
  | write w₁ next ih => exact ih w₁
  | wait ms next ih =>
    cases ms with
    | zero =>
      obtain ⟨hends, hgoes⟩ := ih w
      exact ⟨fun a h => ⟨w, hR w, hends a h⟩,
        fun ms q w₁ a w' h h₁ hq => ⟨w, hR w, hgoes ms q w₁ a w' h h₁ hq⟩⟩
    | succ ms =>
      refine ⟨nofun, fun ms' q w₁ a w' h h₁ hq => ?_⟩
      cases h
      exact ⟨w₁, h₁, hq⟩
  | clock next ih =>
    obtain ⟨hends, hgoes⟩ := ih now w
    exact ⟨fun a h => ⟨now, hends a h⟩,
      fun ms q w₁ a w' h h₁ hq => ⟨now, hgoes ms q w₁ a w' h h₁ hq⟩⟩
  | requestStop next ih => exact ih w
  | log line next ih => exact ih w

/-! ## Parts of a world -/

/-- The worlds differ at most in one part. -/
def Slot.Within (slot : Slot ω σ) (w w' : ω) : Prop := ∃ s, w' = slot.set s w

theorem Slot.Within.refl (slot : Slot ω σ) (w : ω) : slot.Within w w :=
  ⟨slot.get w, (slot.set_get w).symm⟩

theorem mayEnd_zoom {slot : Slot ω σ} {p : Program σ α} {w w' : ω} {a : α} :
    (p.zoom slot).MayEnd slot.Within w a w' ↔
      ∃ s, p.MayEnd (fun _ _ => True) (slot.get w) a s ∧ w' = slot.set s w := by
  induction p generalizing w with
  | done b =>
    constructor
    · rintro ⟨rfl, rfl⟩
      exact ⟨slot.get w, ⟨rfl, rfl⟩, (slot.set_get w).symm⟩
    · rintro ⟨s, ⟨rfl, rfl⟩, rfl⟩
      exact ⟨rfl, (slot.set_get w).symm⟩
  | read next ih => exact ih _
  | write s next ih =>
    refine (ih (w := slot.set s w)).trans ?_
    simp only [slot.get_set, slot.set_set]
    exact Iff.rfl
  -- Only at a wait can others act. A change within the slot is a change of the part, whatever it
  -- is.
  | wait ms next ih =>
    constructor
    · rintro ⟨w₁, ⟨s₁, rfl⟩, h⟩
      obtain ⟨s, hs, rfl⟩ := ih.mp h
      rw [slot.get_set] at hs
      exact ⟨s, ⟨s₁, trivial, hs⟩, slot.set_set s s₁ w⟩
    · rintro ⟨s, ⟨s₁, -, hs⟩, rfl⟩
      refine ⟨slot.set s₁ w, ⟨s₁, rfl⟩, ih.mpr ⟨s, ?_, (slot.set_set s s₁ w).symm⟩⟩
      rwa [slot.get_set]
  | clock next ih =>
    constructor
    · rintro ⟨now, h⟩
      obtain ⟨s, hs, rfl⟩ := (ih now).mp h
      exact ⟨s, ⟨now, hs⟩, rfl⟩
    · rintro ⟨s, ⟨now, hs⟩, rfl⟩
      exact ⟨now, (ih now).mpr ⟨s, hs, rfl⟩⟩
  | requestStop next ih => exact ih
  | log line next ih => exact ih

end Program

/-! ## Records -/

/-- What was asked of an exchange, and the reply. -/
inductive Note where
  | price (marketId : String) (reply : Except Fault Decimal)
  | orderBook (marketId : String) (reply : Except Fault OrderBook)
  /-- Any other call. -/
  | other

def worldSlot (ω : Type) : Program.Slot (ω × List Note) ω where
  get := Prod.fst
  set w r := (w, r.2)

variable {ω α : Type}

/-- The world may change in any way, and the record by nobody else. -/
abbrev Unrecorded (ω : Type) : ω × List Note → ω × List Note → Prop := (worldSlot ω).Within

/-- The call, with a note at its end. -/
def Call.noting (note : Except Fault α → Note) (c : Call ω α) : Call (ω × List Note) α :=
  ExceptT.mk do
    let r ← c.run.zoom (worldSlot ω)
    Program.modify fun (w, notes) => (w, notes ++ [note r])
    return r

/-- The exchange with its record. -/
def Exchange.noted (x : Exchange ω) : Exchange (ω × List Note) where
  implName := x.implName
  orderBook m := (x.orderBook m).noting (.orderBook m)
  openOrders m := (x.openOrders m).noting fun _ => .other
  place t := (x.place t).noting fun _ => .other
  cancel id m := (x.cancel id m).noting fun _ => .other
  price m := (x.price m).noting (.price m)
  balances := x.balances.noting fun _ => .other
  buyFee m := (x.buyFee m).noting fun _ => .other
  sellFee m := (x.sellFee m).noting fun _ => .other
  ticker m := (x.ticker m).noting fun _ => .other

/-- **A call leaves one note**, and ends as it would without. -/
theorem Call.mayEnd_noting {note : Except Fault α → Note} {c : Call ω α} {w w' : ω}
    {l l' : List Note} {r : Except Fault α} :
    (c.noting note).run.MayEnd (Unrecorded ω) (w, l) r (w', l') ↔
      c.run.MayEnd (fun _ _ => True) w r w' ∧ l' = l ++ [note r] := by
  show (c.run.zoom (worldSlot ω) >>= fun r =>
    Program.modify (fun e : ω × List Note => (e.1, e.2 ++ [note r])) >>= fun _ => pure r).MayEnd
      _ _ _ _ ↔ _
  rw [Program.mayEnd_bind]
  constructor
  · rintro ⟨r', w₁, hc, h⟩
    obtain ⟨s, hs, rfl⟩ := Program.mayEnd_zoom.mp hc
    obtain ⟨u, w₂, hnote, hr, hw⟩ := Program.mayEnd_bind.mp h
    cases Program.mayEnd_modify.mp hnote
    cases hr
    cases hw
    exact ⟨hs, rfl⟩
  · rintro ⟨hc, rfl⟩
    refine ⟨r, (w', l), Program.mayEnd_zoom.mpr ⟨w', hc, rfl⟩, Program.mayEnd_bind.mpr ?_⟩
    exact ⟨(), _, Program.mayEnd_modify.mpr rfl, rfl, rfl⟩

end TradingBot
