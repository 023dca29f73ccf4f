import TradingBot.Exchange.Api

/-!
# What a program ensures

**Hearing** (`Program.heard`). An observer takes what he wants from each log line and from the world
that it is written in.

**The property** (`Program.Ensures`). The program ends with a value, in a world, with all that was
heard by then as a condition on the three says. It requests no stop. A condition on worlds holds
whenever the program waits, and after the wait the program goes on in any world of which it holds.

**Rules.** One for each way to put programs together (`Program.ensures_bind`, `Program.ensures_zoom`
and their like), read from the end to the beginning.

**Theorem (`Program.Ensures.resume`).** A turn of such a program ends as the condition says, or it
comes to a wait and leaves a program that still ensures it.
-/

namespace TradingBot

namespace Program

variable {ω σ τ α β : Type} {hear : LogLine → ω → List τ} {I : ω → Prop}
  {Q Q' : List τ → α → ω → Prop} {t : List τ} {w : ω}

def heard (hear : LogLine → ω → List τ) (now : Timestamp) : Program ω α → ω → List τ
  | done _, _ => []
  | read next, w => (next w).heard hear now w
  | write w next, _ => next.heard hear now w
  | wait 0 next, w => next.heard hear now w
  | wait (_ + 1) _, _ => []
  | clock next, w => (next now).heard hear now w
  | requestStop next, w => next.heard hear now w
  | log line next, w => hear line w ++ next.heard hear now w

/-- Having heard `t`, the program ends as `Q` says of all that is heard by then. -/
def Ensures (hear : LogLine → ω → List τ) (I : ω → Prop) (Q : List τ → α → ω → Prop) :
    Program ω α → List τ → ω → Prop
  | done a, t, w => Q t a w
  | read next, t, w => (next w).Ensures hear I Q t w
  | write w next, t, _ => next.Ensures hear I Q t w
  | wait _ next, t, w => I w ∧ ∀ w, I w → next.Ensures hear I Q t w
  | clock next, t, w => ∀ now, (next now).Ensures hear I Q t w
  | requestStop _, _, _ => False
  | log line next, t, w => next.Ensures hear I Q (t ++ hear line w) w

/-! ## Rules -/

theorem Ensures.mono {p : Program ω α} (h : p.Ensures hear I Q t w)
    (hq : ∀ t a w, Q t a w → Q' t a w) : p.Ensures hear I Q' t w := by
  induction p generalizing t w with
  | done a => exact hq t a w h
  | read next ih => exact ih w h
  | write w' next ih => exact ih h
  | wait ms next ih => exact ⟨h.1, fun w' hw' => ih (h.2 w' hw')⟩
  | clock next ih => exact fun now => ih now (h now)
  | requestStop next => exact h
  | log line next ih => exact ih h

/-- What was heard before makes no difference to a condition that is not about what is heard. -/
theorem Ensures.forget {R : α → ω → Prop} {p : Program ω α}
    (h : p.Ensures hear I (fun _ a w => R a w) t w) (t' : List τ) :
    p.Ensures hear I (fun _ a w => R a w) t' w := by
  induction p generalizing t t' w with
  | done a => exact h
  | read next ih => exact ih w h t'
  | write w' next ih => exact ih h t'
  | wait ms next ih => exact ⟨h.1, fun w' hw' => ih (h.2 w' hw') t'⟩
  | clock next ih => exact fun now => ih now (h now) t'
  | requestStop next => exact h
  | log line next ih => exact ih h (t' ++ hear line w)

@[simp] theorem ensures_pure {a : α} :
    (pure a : Program ω α).Ensures hear I Q t w ↔ Q t a w := Iff.rfl

@[simp] theorem ensures_tell {level : LogLevel} {message : String}
    {fields : List (String × String)} {R : List τ → Unit → ω → Prop} :
    (tell level message fields).Ensures hear I R t w ↔
      R (t ++ hear { level, message, fields } w) () w := Iff.rfl

@[simp] theorem ensures_now {R : List τ → Timestamp → ω → Prop} :
    now.Ensures hear I R t w ↔ ∀ time, R t time w := Iff.rfl

@[simp] theorem ensures_bind {p : Program ω α} {f : α → Program ω β}
    {R : List τ → β → ω → Prop} : (p >>= f).Ensures hear I R t w ↔
      p.Ensures hear I (fun t a w => (f a).Ensures hear I R t w) t w := by
  show (p.bind f).Ensures hear I R t w ↔ _
  induction p generalizing t w with
  | done a => exact Iff.rfl
  | read next ih => exact ih w
  | write w' next ih => exact ih
  | wait ms next ih => exact and_congr_right fun _ => forall₂_congr fun _ _ => ih
  | clock next ih => exact forall_congr' fun now => ih now
  | requestStop next => exact Iff.rfl
  | log line next ih => exact ih

/-! ## Parts of a world -/

def Slot.whole (ω : Type) : Slot ω ω where
  get := id
  set w _ := w

/-- A program over a part of the world, where observer and conditions look at that part only. -/
theorem ensures_zoom {slot : Slot ω σ} {hear : LogLine → σ → List τ} {I : σ → Prop}
    {Q : List τ → α → σ → Prop} {p : Program σ α} (h : p.Ensures hear I Q t (slot.get w)) :
    (p.zoom slot).Ensures (fun line w => hear line (slot.get w)) (fun w => I (slot.get w))
      (fun t a w => Q t a (slot.get w)) t w := by
  induction p generalizing t w with
  | done a => exact h
  | read next ih => exact ih _ h
  | write s next ih => exact ih (by rwa [slot.get_set])
  | wait ms next ih => exact ⟨h.1, fun w' hw' => ih (h.2 _ hw')⟩
  | clock next ih => exact fun now => ih now (h now)
  | requestStop next => exact h
  | log line next ih => exact ih h

section

variable {slot : Slot ω σ}

theorem zoom_bind (p : Program σ α) (f : α → Program σ β) :
    (p >>= f).zoom slot = p.zoom slot >>= fun a => (f a).zoom slot := by
  show (p.bind f).zoom slot = (p.zoom slot).bind _
  induction p with
  | done a => rfl
  | read next ih => exact congrArg read (funext fun w => ih _)
  | write s next ih => simp only [bind, zoom, ih]
  | wait ms next ih => simp only [bind, zoom, ih]
  | clock next ih => exact congrArg clock (funext fun now => ih now)
  | requestStop next ih => simp only [bind, zoom, ih]
  | log line next ih => simp only [bind, zoom, ih]

@[simp] theorem ensures_zoom_pure {a : α} :
    ((pure a : Program σ α).zoom slot).Ensures hear I Q t w ↔ Q t a w := Iff.rfl

@[simp] theorem ensures_zoom_get {R : List τ → σ → ω → Prop} :
    (get.zoom slot).Ensures hear I R t w ↔ R t (slot.get w) w := Iff.rfl

@[simp] theorem ensures_zoom_modifyGet {f : σ → α × σ} :
    ((modifyGet f).zoom slot).Ensures hear I Q t w ↔
      Q t (f (slot.get w)).1 (slot.set (f (slot.get w)).2 w) := Iff.rfl

@[simp] theorem ensures_zoom_pause {ms : Nat} {R : List τ → Unit → ω → Prop} :
    ((pause ms).zoom slot).Ensures hear I R t w ↔ I w ∧ ∀ w, I w → R t () w := Iff.rfl

@[simp] theorem ensures_zoom_bind {p : Program σ α} {f : α → Program σ β}
    {R : List τ → β → ω → Prop} : ((p >>= f).zoom slot).Ensures hear I R t w ↔
      (p.zoom slot).Ensures hear I (fun t a w => ((f a).zoom slot).Ensures hear I R t w) t w := by
  rw [zoom_bind, ensures_bind]

@[simp] theorem ensures_zoom_tell {level : LogLevel} {message : String}
    {fields : List (String × String)} {R : List τ → Unit → ω → Prop} :
    ((tell level message fields).zoom slot).Ensures hear I R t w ↔
      R (t ++ hear { level, message, fields } w) () w := Iff.rfl

end

/-! ## Turns -/

/-- **A turn of a program that ensures something.** It ends so, or it comes to a wait, and what is
left ensures it in every world in which the wait may end. -/
theorem Ensures.resume {p : Program ω α} (h : p.Ensures hear I Q t w) (now : Timestamp) :
    (p.resume now w).stop = false ∧
      (∀ a, (p.resume now w).rest = .inl a →
        Q (t ++ p.heard hear now w) a (p.resume now w).world) ∧
      ∀ ms q, (p.resume now w).rest = .inr (ms, q) → I (p.resume now w).world ∧
        ∀ w', I w' → q.Ensures hear I Q (t ++ p.heard hear now w) w' := by
  induction p generalizing t w with
  | done a =>
    rw [heard, List.append_nil]
    refine ⟨rfl, ?_, nofun⟩
    intro a' ha
    cases ha
    exact h
  | read next ih => exact ih w h
  | write w' next ih => exact ih h
  | wait ms next ih =>
    cases ms with
    | zero => exact ih (h.2 w h.1)
    | succ ms =>
      rw [heard, List.append_nil]
      refine ⟨rfl, nofun, ?_⟩
      intro k q hq
      cases hq
      exact h
  | clock next ih => exact ih now (h now)
  | requestStop next => exact h.elim
  | log line next ih =>
    rw [heard, ← List.append_assoc]
    exact ih h

end Program

/-! ## Calls -/

namespace Call

variable {ω σ τ α β : Type} {hear : LogLine → ω → List τ} {I : ω → Prop}
  {Q : List τ → Except Fault α → ω → Prop} {t : List τ} {w : ω}

@[simp] theorem ensures_pure {a : α} :
    (pure a : Call ω α).run.Ensures hear I Q t w ↔ Q t (.ok a) w := Iff.rfl

@[simp] theorem ensures_bind {c : Call ω α} {k : α → Call ω β}
    {R : List τ → Except Fault β → ω → Prop} : (c >>= k).run.Ensures hear I R t w ↔
      c.run.Ensures hear I (fun t r w =>
        match r with
        | .ok a => (k a).run.Ensures hear I R t w
        | .error f => R t (.error f) w) t w := by
  have hbind : (c >>= k).run = c.run >>= fun r => ExceptT.bindCont k r := rfl
  rw [hbind, Program.ensures_bind]
  refine ⟨fun h => h.mono fun t r w hr => ?_, fun h => h.mono fun t r w hr => ?_⟩
  · cases r <;> exact hr
  · cases r <;> exact hr

@[simp] theorem ensures_lift {p : Program ω α} :
    (lift p).run.Ensures hear I Q t w ↔ p.Ensures hear I (fun t a w => Q t (.ok a) w) t w :=
  Program.ensures_bind

@[simp] theorem ensures_ofExcept {r : Except ApiError α} :
    (ofExcept r : Call ω α).run.Ensures hear I Q t w ↔ Q t (r.mapError .error) w := by
  cases r <;> exact Iff.rfl

@[simp] theorem ensures_compute {r : Except Crash α} :
    (compute r : Call ω α).run.Ensures hear I Q t w ↔ Q t (r.mapError .crash) w := by
  cases r <;> exact Iff.rfl

theorem run_zoom {slot : Program.Slot ω σ} (c : Call σ α) :
    (c.zoom slot).run = c.run.zoom slot := rfl

end Call

-- From here on, programs are taken apart by the rules alone.
attribute [irreducible] Program.Ensures

end TradingBot
