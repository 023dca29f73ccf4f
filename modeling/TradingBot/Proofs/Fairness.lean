import Mathlib.Data.Nat.Init
import TradingBot.Proofs.Schedule

/-!
# Schedules under which the start at work comes on

**What is left of a program** (`Program.Later`). A program that waits leaves a smaller one. As a
program is a finite tree, this cannot go on for ever (`Program.later_wf`), whatever the world shows
to it and however long its waits are.

**Turns** (`Engine.IsTurn`). A moment at which the start at work is awake and makes a move. All
other moves leave its phase, its cycles and its calls as they are (`Engine.Waits`).

**Fair schedules** (`Engine.Fair`). The start at work gets its turn again and again. It is assumed
of whoever runs the engine: a task that can go on is not left waiting for ever, and time passes
while it sleeps. A clock is punctual (`Engine.Punctual`) if no time passes while the start is awake,
and never more than it sleeps for.

**Theorem (`Engine.program_ends`).** On a fair schedule every component's program comes to its end.
-/

namespace TradingBot

/-! ## The rest of a program -/

namespace Program

variable {ω α : Type}

/-- `q` is what `p` may leave when it comes to its next wait. -/
def Later (q p : Program ω α) : Prop :=
  ∃ now w ms, (p.resume now w).rest = .inr (ms, q)

theorem later_wf : WellFounded (Later : Program ω α → Program ω α → Prop) := by
  refine ⟨fun p => ?_⟩
  induction p with
  | done a =>
    refine ⟨_, fun q ⟨now, w, ms, h⟩ => ?_⟩
    simp [resume] at h
  | read next ih => exact ⟨_, fun q ⟨now, w, ms, h⟩ => (ih w).inv ⟨now, w, ms, h⟩⟩
  | write w' next ih => exact ⟨_, fun q ⟨now, w, ms, h⟩ => ih.inv ⟨now, w', ms, h⟩⟩
  | wait ms next ih =>
    refine ⟨_, fun q ⟨now, w, k, h⟩ => ?_⟩
    cases ms with
    | zero => exact ih.inv ⟨now, w, k, h⟩
    | succ ms =>
      -- The rest of a wait is the next program itself.
      simp only [resume, Sum.inr.injEq, Prod.mk.injEq] at h
      exact h.2 ▸ ih
  | clock next ih => exact ⟨_, fun q ⟨now, w, ms, h⟩ => (ih now).inv ⟨now, w, ms, h⟩⟩
  | requestStop next ih => exact ⟨_, fun q ⟨now, w, ms, h⟩ => ih.inv ⟨now, w, ms, h⟩⟩
  | log line next ih => exact ⟨_, fun q ⟨now, w, ms, h⟩ => ih.inv ⟨now, w, ms, h⟩⟩

end Program

namespace Engine

variable {ω ς α : Type} {e : Engine ω ς} {σ : Schedule ω} {n m : Nat}

/-! ## Turns -/

/-- The start at work is awake and makes the next move. -/
def IsTurn (e : Engine ω ς) (σ : Schedule ω) (n : Nat) : Prop :=
  σ n = .work ∧ (e.after σ n).isAsleep = false

/-- The start at work gets its turn again and again. -/
def Fair (e : Engine ω ς) (σ : Schedule ω) : Prop :=
  ∀ n, ∃ m, n ≤ m ∧ e.IsTurn σ m

/-- The time at which the start at work goes on, now or later. -/
def limit (e : Engine ω ς) : Nat := max e.now e.wake

/-- While a start is at work, the clock goes no further than to where it wakes. -/
def Punctual (e : Engine ω ς) (σ : Schedule ω) : Prop :=
  ∀ n ms, σ n = .pass ms →
    (e.after σ n).phase = .idle ∨ (e.after σ n).now + ms ≤ (e.after σ n).limit

theorem Fair.cons {m : Move ω} (h : (e.move m).Fair σ) : e.Fair (σ.cons m) := by
  intro n
  obtain ⟨k, hnk, hturn⟩ := h n
  refine ⟨k + 1, by omega, hturn.1, ?_⟩
  rw [after_cons]
  exact hturn.2

/-! ## Between two turns -/

/-- Nothing has been shown since the engine was `e`. -/
structure Lingers (e e' : Engine ω ς) : Prop where
  lifecycle : e'.lifecycle = e.lifecycle
  cycles : e'.cycles = e.cycles
  actions : e'.actions = e.actions
  now : e.now ≤ e'.now
  stopRequested : e.stopRequested = true → e'.stopRequested = true

/-- The start at work has made no move since the engine was `e`. -/
structure Waits (e e' : Engine ω ς) : Prop extends Lingers e e' where
  phase : e'.phase = e.phase
  wake : e'.wake = e.wake

theorem Lingers.refl (e : Engine ω ς) : Lingers e e := ⟨rfl, rfl, rfl, Nat.le_refl _, id⟩

theorem Lingers.trans {d e' : Engine ω ς} (h : Lingers e d) (h' : Lingers d e') : Lingers e e' :=
  ⟨h'.lifecycle.trans h.lifecycle, h'.cycles.trans h.cycles, h'.actions.trans h.actions,
    Nat.le_trans h.now h'.now, fun hs => h'.stopRequested (h.stopRequested hs)⟩

theorem Waits.refl (e : Engine ω ς) : Waits e e := ⟨.refl e, rfl, rfl⟩

theorem Waits.trans {d e' : Engine ω ς} (h : Waits e d) (h' : Waits d e') : Waits e e' :=
  ⟨h.toLingers.trans h'.toLingers, h'.phase.trans h.phase, h'.wake.trans h.wake⟩

/-- A move that is no turn leaves the start of a claimed engine where it is, and shows nothing. -/
theorem Follows.waits {m : Move ω} {evs : List Event} {e' : Engine ω ς} (hm : Follows e m evs e')
    (hl : e.lifecycle ≠ .notStarted) (hn : ¬ (m = .work ∧ e.isAsleep = false)) :
    Waits e e' ∧ evs = [] := by
  cases hm with
  | claims hnew => exact absurd hnew hl
  | refused | asked | changes | holds =>
    exact ⟨⟨⟨rfl, rfl, rfl, Nat.le_refl _, by simp⟩, rfl, rfl⟩, rfl⟩
  | passes ms => exact ⟨⟨⟨rfl, rfl, rfl, Nat.le_add_right _ _, id⟩, rfl, rfl⟩, rfl⟩
  | steps ha => exact absurd ⟨rfl, ha⟩ hn

/-- It does not put off the next turn either, if time passes no further than to that. -/
theorem Follows.limit_le {m : Move ω} {evs : List Event} {e' : Engine ω ς}
    (hm : Follows e m evs e') (hl : e.lifecycle ≠ .notStarted)
    (hn : ¬ (m = .work ∧ e.isAsleep = false)) (hp : ∀ ms, m = .pass ms → e.now + ms ≤ e.limit) :
    e'.limit ≤ e.limit := by
  cases hm with
  | claims hnew => exact absurd hnew hl
  | refused | asked | changes | holds => exact Nat.le_refl _
  | passes ms => exact Nat.max_le.mpr ⟨hp ms rfl, Nat.le_max_right _ _⟩
  | steps ha => exact absurd ⟨rfl, ha⟩ hn

theorem waits_between (hl : (e.after σ n).lifecycle ≠ .notStarted) (h : n ≤ m)
    (hno : ∀ k, n ≤ k → k < m → ¬ e.IsTurn σ k) :
    Waits (e.after σ n) (e.after σ m) ∧ e.history σ m = e.history σ n := by
  induction m, h using Nat.le_induction with
  | base => exact ⟨.refl _, rfl⟩
  | succ m h ih =>
    obtain ⟨hw, hh⟩ := ih fun k hn hk => hno k hn (Nat.lt_succ_of_lt hk)
    have hl' : (e.after σ m).lifecycle ≠ .notStarted := by rwa [hw.lifecycle]
    obtain ⟨hw', hshow⟩ :=
      (move_follows (e.after σ m) (σ m)).waits hl' (hno m h (Nat.lt_succ_self m))
    refine ⟨hw.trans hw', ?_⟩
    rw [history, hshow, List.append_nil, hh]

theorem next_turn (hf : e.Fair σ) (n : Nat) :
    ∃ m, n ≤ m ∧ e.IsTurn σ m ∧ ∀ k, n ≤ k → k < m → ¬ e.IsTurn σ k := by
  obtain ⟨m, ⟨hnm, hturn⟩, hfirst⟩ := exists_first (hf n)
  exact ⟨m, hnm, hturn, fun k hnk hkm hk => hfirst k hkm ⟨hnk, hk⟩⟩

/-- On a punctual clock, time passes up to the next turn as far as the start at work sleeps. -/
theorem limit_between (hp : e.Punctual σ) (hl : (e.after σ n).lifecycle ≠ .notStarted)
    (hi : (e.after σ n).phase ≠ .idle) (h : n ≤ m) (hno : ∀ k, n ≤ k → k < m → ¬ e.IsTurn σ k) :
    (e.after σ m).limit ≤ (e.after σ n).limit := by
  induction m, h using Nat.le_induction with
  | base => exact Nat.le_refl _
  | succ m h ih =>
    have hno' := fun k hn hk => hno k hn (Nat.lt_succ_of_lt hk)
    obtain ⟨hw, -⟩ := waits_between hl h hno'
    refine Nat.le_trans ?_ (ih hno')
    have hi' : (e.after σ m).phase ≠ .idle := by rwa [hw.phase]
    have hl' : (e.after σ m).lifecycle ≠ .notStarted := by rwa [hw.lifecycle]
    have hpass := fun ms hm => (hp m ms hm).resolve_left hi'
    exact (move_follows (e.after σ m) (σ m)).limit_le hl' (hno m h (Nat.lt_succ_self m)) hpass

theorem IsTurn.step (ht : e.IsTurn σ n) (hi : (e.after σ n).phase ≠ .idle) :
    Step (e.after σ n) ((e.after σ n).showing (σ n)) (e.after σ (n + 1)) := by
  obtain ⟨hw, ha⟩ := ht
  have hafter : e.after σ (n + 1) = (e.after σ n).work := by rw [after, hw, move]
  rw [hafter, hw]
  exact work_step ha hi

/-- The start at work makes its next move at `m`, and until then it waits. -/
structure NextMove (e : Engine ω ς) (σ : Schedule ω) (n m : Nat) : Prop where
  le : n ≤ m
  turn : e.IsTurn σ m
  waits : Waits (e.after σ n) (e.after σ m)
  step : Step (e.after σ m) ((e.after σ m).showing (σ m)) (e.after σ (m + 1))
  history : e.history σ m = e.history σ n
  limit_le : e.Punctual σ → (e.after σ m).limit ≤ (e.after σ n).limit

theorem next_move (hf : e.Fair σ) (hl : (e.after σ n).lifecycle ≠ .notStarted)
    (hi : (e.after σ n).phase ≠ .idle) : ∃ m, NextMove e σ n m := by
  obtain ⟨m, hnm, hturn, hno⟩ := next_turn hf n
  obtain ⟨hw, hh⟩ := waits_between hl hnm hno
  have st := hturn.step (by rwa [hw.phase])
  exact ⟨m, hnm, hturn, hw, st, hh, fun hp => limit_between hp hl hi hnm hno⟩

/-! ## After the start has ended -/

/-- Once the start of a claimed engine has ended, there is none at work any more, and nothing is
shown. -/
theorem ended_after (hi : (e.after σ n).phase = .idle)
    (hl : (e.after σ n).lifecycle ≠ .notStarted) (h : n ≤ m) :
    Waits (e.after σ n) (e.after σ m) ∧ e.history σ m = e.history σ n := by
  have hkeep {d d' : Engine ω ς} {k : Move ω} {evs : List Event} (hm : Follows d k evs d')
      (hi : d.phase = .idle) (hl : d.lifecycle ≠ .notStarted) : Waits d d' ∧ evs = [] := by
    by_cases hn : k = .work ∧ d.isAsleep = false
    · cases hm with
      | holds => exact ⟨.refl d, rfl⟩
      | steps _ hne => exact absurd hi hne
      | _ => cases hn.1
    · exact hm.waits hl hn
  induction m, h using Nat.le_induction with
  | base => exact ⟨.refl _, rfl⟩
  | succ m _ ih =>
    obtain ⟨hw, hh⟩ := ih
    obtain ⟨hw', hshow⟩ :=
      hkeep (move_follows _ _) (hw.phase.trans hi) (by rwa [hw.lifecycle])
    refine ⟨hw.trans hw', ?_⟩
    rw [history, hshow, List.append_nil, hh]

theorem fair_of_ended (hi : (e.after σ n).phase = .idle)
    (hl : (e.after σ n).lifecycle ≠ .notStarted) (ha : (e.after σ n).isAsleep = false)
    (hw : ∀ k, ∃ m, k ≤ m ∧ σ m = .work) : e.Fair σ := by
  intro k
  obtain ⟨m, hm, hwork⟩ := hw (max k n)
  obtain ⟨hwaits, -⟩ := ended_after hi hl (show n ≤ m by omega)
  have hnow := hwaits.now
  have hwake := hwaits.wake
  refine ⟨m, by omega, hwork, ?_⟩
  simp only [isAsleep, decide_eq_false_iff_not] at ha ⊢
  omega

theorem punctual_of_ended (hi : (e.after σ n).phase = .idle)
    (hl : (e.after σ n).lifecycle ≠ .notStarted)
    (hp : ∀ k < n, ∀ ms, σ k = .pass ms → (e.after σ k).now + ms ≤ (e.after σ k).limit) :
    e.Punctual σ := by
  intro k ms hpass
  rcases Nat.lt_or_ge k n with hk | hk
  · exact .inr (hp k hk ms hpass)
  · exact .inl ((ended_after hi hl hk).1.phase.trans hi)

/-! ## Programs -/

theorem work_waits {suspend : Program ω α → Phase ω ς} {p q : Program ω α} {ms : Nat}
    (hs : Suspends suspend) (ha : e.isAsleep = false) (hp : e.phase = suspend p)
    (ht : (e.turn p).rest = .inr (ms, q)) :
    e.work = { e.afterTurn p with phase := suspend q, wake := (e.afterTurn p).now + ms } ∧
      e.shown = [] := by
  have hwork :
      e.work = { e.afterTurn p with phase := suspend q, wake := (e.afterTurn p).now + ms } := by
    unfold work
    rw [if_neg (by simp [ha])]
    cases hs <;> simp only [hp, carry_eq, ht]
  refine ⟨hwork, ?_⟩
  rw [shown, ha, hwork, afterTurn_now]
  exact (Step.waits hs hp ht).shown

/-- **Every program comes to its end.** On a fair schedule a component's program has a turn that
ends it, and until then nothing is shown. -/
theorem program_ends {suspend : Program ω α → Phase ω ς} {p : Program ω α}
    (hs : Suspends suspend) (hf : e.Fair σ) (hl : (e.after σ n).lifecycle ≠ .notStarted)
    (hp : (e.after σ n).phase = suspend p) :
    ∃ m q a, n ≤ m ∧ e.IsTurn σ m ∧ Lingers (e.after σ n) (e.after σ m) ∧
      e.history σ m = e.history σ n ∧ (e.after σ m).phase = suspend q ∧
      ((e.after σ m).turn q).rest = .inl a := by
  induction p using Program.later_wf.induction generalizing n with
  | _ p ih =>
    obtain ⟨m, hnm, hturn, hno⟩ := next_turn hf n
    obtain ⟨hw, hh⟩ := waits_between hl hnm hno
    have hpm := hw.phase.trans hp
    match ht : ((e.after σ m).turn p).rest with
    | .inl a => exact ⟨m, p, a, hnm, hturn, hw.toLingers, hh, hpm, ht⟩
    | .inr (ms, q) =>
      obtain ⟨hwork, hshown⟩ := work_waits hs hturn.2 hpm ht
      have hafter : e.after σ (m + 1) = (e.after σ m).work := by rw [after, hturn.1, move]
      rw [hwork] at hafter
      have hnext : Lingers (e.after σ m) (e.after σ (m + 1)) := by
        rw [hafter]
        exact ⟨by simp, by simp, by simp, by simp, fun hstop => by simp [hstop]⟩
      have hhist : e.history σ (m + 1) = e.history σ m := by
        rw [history, hturn.1, showing, hshown, List.append_nil]
      have hlnext := (hw.toLingers.trans hnext).lifecycle
      obtain ⟨k, r, a, hmk, hk⟩ :=
        ih q ⟨_, _, _, ht⟩ (n := m + 1) (by rwa [hlnext]) (by rw [hafter])
      obtain ⟨htk, hling, hhk, hend⟩ := hk
      exact ⟨k, r, a, by omega, htk, (hw.toLingers.trans hnext).trans hling,
        hhk.trans (hhist.trans hh), hend⟩

end Engine

end TradingBot
