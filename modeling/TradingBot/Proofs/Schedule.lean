import Mathlib.Data.Nat.Find
import TradingBot.Proofs.Moves

/-!
# Runs in every order of moves

**Moves** (`Move`). What can happen to an engine at one moment: someone calls start or requests a
stop, the start at work makes a move, time passes, or the world of the components changes by
itself.

**Schedules** (`Schedule`). An endless sequence of moves. Every order in which callers, the start at
work, the clock and the world can take their turns is a schedule, and a run that is still going on
is the beginning of one. `Engine.after` is the engine after the first moves of a schedule, and
`Engine.history` lists the events up to there.

**One move** (`Engine.Follows`). What a move of any kind does; for the start at work it is one of
the rules of `Engine.Step`. A property that every move keeps holds from some moment on
(`Engine.after_of_le`).
-/

namespace TradingBot

/-- What can happen to an engine at one moment. -/
inductive Move (ω : Type) where
  | start
  | requestStop
  /-- The start at work goes on, if there is one and it is awake. -/
  | work
  /-- So many milliseconds pass. -/
  | pass (ms : Nat)
  /-- The world of the components becomes another one. -/
  | change (w : ω)

abbrev Schedule (ω : Type) := Nat → Move ω

def Schedule.cons {ω : Type} (m : Move ω) (σ : Schedule ω) : Schedule ω
  | 0 => m
  | n + 1 => σ n

namespace Engine

variable {ω ς : Type}

def fresh (s : Setup ω ς) (w : ω) : Engine ω ς := { setup := s, world := w }

def move (e : Engine ω ς) : Move ω → Engine ω ς
  | .start => e.start
  | .requestStop => e.requestStop
  | .work => e.work
  | .pass ms => { e with now := e.now + ms }
  | .change w => { e with world := w }

def after (e : Engine ω ς) (σ : Schedule ω) : Nat → Engine ω ς
  | 0 => e
  | n + 1 => (e.after σ n).move (σ n)

def showing (e : Engine ω ς) : Move ω → List Event
  | .work => e.shown
  | _ => []

def history (e : Engine ω ς) (σ : Schedule ω) : Nat → List Event
  | 0 => []
  | n + 1 => e.history σ n ++ (e.after σ n).showing (σ n)

/-! ## One move -/

/-- What a move does, with the events that it shows. -/
inductive Follows (e : Engine ω ς) : Move ω → List Event → Engine ω ς → Prop
  | claims {lines : Array LogLine} : e.lifecycle = .notStarted →
      Follows e .start [] { e with
        lifecycle := .running, phase := .loading, starts := e.starts ++ [none], lines }
  | refused : e.lifecycle ≠ .notStarted →
      Follows e .start [] { e with
        starts := e.starts ++ [some (.error (.alreadyStarted e.lifecycle))] }
  | asked {lines : Array LogLine} :
      Follows e .requestStop [] { e with stopRequested := true, lines }
  | passes (ms : Nat) : Follows e (.pass ms) [] { e with now := e.now + ms }
  | changes (w : ω) : Follows e (.change w) [] { e with world := w }
  | holds : e.isAsleep = true ∨ e.phase = .idle → Follows e .work [] e
  | steps {evs : List Event} {e' : Engine ω ς} :
      e.isAsleep = false → e.phase ≠ .idle → Step e evs e' → Follows e .work evs e'

theorem start_refused {e : Engine ω ς} (h : e.lifecycle ≠ .notStarted) :
    e.start = { e with starts := e.starts ++ [some (.error (.alreadyStarted e.lifecycle))] } := by
  unfold start
  split
  · next h' => exact absurd h' h
  · rfl

theorem start_follows (e : Engine ω ς) : Follows e .start [] e.start := by
  by_cases h : e.lifecycle = .notStarted
  · have hs : e.start = { e with
        lifecycle := .running, phase := .loading, starts := e.starts ++ [none],
        lines := e.start.lines } := by
      unfold start
      rw [h]
      rfl
    rw [hs]
    exact .claims h
  · rw [start_refused h]
    exact .refused h

theorem work_follows (e : Engine ω ς) : Follows e .work e.shown e.work := by
  by_cases h : e.isAsleep = true ∨ e.phase = .idle
  · rw [work_eq_self h, shown_eq_nil h]
    exact .holds h
  · rw [not_or] at h
    have ha : e.isAsleep = false := by simpa using h.1
    exact .steps ha h.2 (e.work_step ha h.2)

theorem move_follows (e : Engine ω ς) (m : Move ω) : Follows e m (e.showing m) (e.move m) := by
  cases m with
  | start => exact e.start_follows
  | requestStop =>
    show Follows e .requestStop [] e.requestStop
    rw [requestStop_eq]
    exact .asked
  | work => exact e.work_follows
  | pass ms => exact .passes ms
  | change w => exact .changes w

/-! ## From one moment on -/

theorem after_cons (e : Engine ω ς) (m : Move ω) (σ : Schedule ω) (n : Nat) :
    e.after (σ.cons m) (n + 1) = (e.move m).after σ n := by
  induction n with
  | zero => rfl
  | succ n ih => rw [after, ih, after, Schedule.cons]

theorem history_cons (e : Engine ω ς) (m : Move ω) (σ : Schedule ω) (n : Nat) :
    e.history (σ.cons m) (n + 1) = e.showing m ++ (e.move m).history σ n := by
  induction n with
  | zero => exact (List.append_nil _).symm
  | succ n ih => rw [history, ih, after_cons, Schedule.cons, history, List.append_assoc]

theorem exists_first {p : Nat → Prop} (h : ∃ n, p n) : ∃ n, p n ∧ ∀ k < n, ¬ p k := by
  classical
  exact ⟨Nat.find h, Nat.find_spec h, fun k hk => Nat.find_min h hk⟩

theorem after_of_le {P : Engine ω ς → Prop}
    (hstep : ∀ d m evs d', Follows d m evs d' → P d → P d') {e : Engine ω ς} {σ : Schedule ω}
    {n m : Nat} (h : n ≤ m) (hn : P (e.after σ n)) : P (e.after σ m) := by
  induction h with
  | refl => exact hn
  | step _ ih => exact hstep _ _ _ _ (move_follows _ _) ih

/-- What holds of a new engine without a past and is kept by every move holds at all moments. -/
theorem after_of_start {P : Engine ω ς → List Event → Prop}
    (hstep : ∀ d m evs d' h, Follows d m evs d' → P d h → P d' (h ++ evs)) {e : Engine ω ς}
    (h0 : P e []) (σ : Schedule ω) (n : Nat) : P (e.after σ n) (e.history σ n) := by
  induction n with
  | zero => exact h0
  | succ n ih => exact hstep _ _ _ _ _ (move_follows _ _) ih

end Engine

end TradingBot
