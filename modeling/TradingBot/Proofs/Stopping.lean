import TradingBot.Proofs.FatalAlert

/-!
# When an engine stops

**What a stop leaves to do** (`Engine.budget`). The cycles completed, and one more for a cycle under
way. Only the beginning of a cycle adds to it, and no cycle begins once a stop is requested.

**Cycles** (`Engine.cycle_ends`). On a fair schedule a cycle under way comes to its own end, stop or
no stop.

**Pauses** (`Engine.returns_of_between`, `Engine.goesOn_of_pausing`). A request that finds the
engine between two cycles makes it return at its next waking, which is at most a tick away. Without
one, on a punctual clock the next cycle begins exactly when the pause is over.

**Theorem (`Engine.stopsInTime_after`).** In every order of moves, an engine stops in time.
-/

namespace TradingBot

/-- The event is a call that a trade cycle makes: a fetch of balances or an execution. -/
def Event.IsTrade : Event → Prop
  | .call .fetchBalances | .call (.execute _) => True
  | _ => False

namespace Engine

open Trace

variable {ω ς : Type} {e e' : Engine ω ς} {m : Move ω} {evs : List Event} {run : Run ω ς}
  {c : Config} {s : Setup ω ς} {w : ω} {σ : Schedule ω} {n k : Nat}

/-! ## No cycle begins after a stop -/

theorem Dispatches.not_began {d : Engine ω ς} {finished left : List (Wired ω ς)}
    (h : Dispatches d run finished left evs e') : .began ∉ evs := by
  cases h <;> simp

theorem Wires.not_began {d : Engine ω ς} {config : Config} {x : Exchange ω}
    {ready : List (Wired ω ς)} {left : List Config.Market}
    (h : Wires d config x ready left evs e') : .began ∉ evs := by
  cases h <;> simp

/-- A cycle begins only while no stop is requested. -/
theorem Step.not_began (st : Step e evs e') (hs : e'.stopRequested = true) : .began ∉ evs := by
  intro hb
  have hcheck : ∃ run, e.phase = .checking run := by
    cases st with
    | fetches hp | begins hp => exact ⟨_, hp⟩
    | setsUp _ _ hw | strategyReady _ _ hw => exact absurd hb hw.not_began
    | passes _ _ _ _ hd | executes _ _ hd => simp [hd.not_began] at hb
    | _ => simp at hb
  obtain ⟨run, hp⟩ := hcheck
  rcases st.of_checking hp with ⟨-, rfl, -⟩ | ⟨-, hs', -⟩
  · simp at hb
  · cases hs'.symm.trans hs

theorem Follows.not_began (hm : Follows e m evs e') (hs : e'.stopRequested = true) :
    .began ∉ evs := by
  cases hm with
  | claims | refused | asked | passes | changes | holds => exact List.not_mem_nil
  | steps _ _ st => exact st.not_began hs

/-- The cycles completed, and one more for a cycle under way. -/
def budget (e : Engine ω ς) : Nat := e.cycles + if e.phase.InCycle then 1 else 0

theorem cycles_le_budget (e : Engine ω ς) : e.cycles ≤ e.budget := Nat.le_add_right _ _

theorem budget_of_inCycle (h : e.phase.InCycle) : e.budget = e.cycles + 1 := by
  rw [budget, if_pos h]

theorem budget_of_not_inCycle (h : ¬ e.phase.InCycle) : e.budget = e.cycles := by
  rw [budget, if_neg h, Nat.add_zero]

theorem Wires.not_inCycle {d : Engine ω ς} {config : Config} {x : Exchange ω}
    {ready : List (Wired ω ς)} {left : List Config.Market}
    (h : Wires d config x ready left evs e') : ¬ e'.phase.InCycle := by
  cases h <;> exact id

theorem Rests.not_inCycle {d : Engine ω ς} (h : Rests d run e') : ¬ e'.phase.InCycle := by
  cases h <;> exact id

theorem Rests.budget {d : Engine ω ς} (h : Rests d run e') : e'.budget = d.cycles + 1 := by
  rw [budget_of_not_inCycle h.not_inCycle]
  cases h <;> rfl

theorem Dispatches.budget {d : Engine ω ς} {finished left : List (Wired ω ς)}
    (h : Dispatches d run finished left evs e') : e'.budget = d.cycles + 1 := by
  cases h with
  | ends hr => exact hr.budget
  | executes => exact budget_of_inCycle trivial

/-- No cycle has begun from `e` to `e'`: the budget is no larger, and outside of a cycle no call of
a cycle was made. -/
structure Quiet (e : Engine ω ς) (evs : List Event) (e' : Engine ω ς) : Prop where
  began : .began ∉ evs
  budget : e'.budget ≤ e.budget
  trades : ¬ e.phase.InCycle → ¬ e'.phase.InCycle ∧ ∀ ev ∈ evs, ¬ ev.IsTrade

theorem Quiet.refl (e : Engine ω ς) : Quiet e [] e :=
  ⟨List.not_mem_nil, Nat.le_refl _, fun hn => ⟨hn, by simp⟩⟩

theorem Quiet.trans {d : Engine ω ς} {l : List Event} (h : Quiet d l e) (h' : Quiet e evs e') :
    Quiet d (l ++ evs) e' := by
  refine ⟨?_, Nat.le_trans h'.budget h.budget, fun hn => ?_⟩
  · rw [List.mem_append]
    exact fun hm => hm.elim h.began h'.began
  · obtain ⟨hn', ht⟩ := h.trades hn
    obtain ⟨hn'', ht'⟩ := h'.trades hn'
    exact ⟨hn'', List.forall_mem_append.mpr ⟨ht, ht'⟩⟩

theorem Quiet.of_inCycle (hb : .began ∉ evs) (h : e.phase.InCycle)
    (hle : e'.budget ≤ e.cycles + 1) : Quiet e evs e' :=
  ⟨hb, by rwa [budget_of_inCycle h], fun hn => absurd h hn⟩

theorem Quiet.of_not_inCycle (hb : .began ∉ evs) (h : ¬ e.phase.InCycle)
    (h' : ¬ e'.phase.InCycle) (hc : e'.cycles = e.cycles) (ht : ∀ ev ∈ evs, ¬ ev.IsTrade) :
    Quiet e evs e' := by
  refine ⟨hb, ?_, fun _ => ⟨h', ht⟩⟩
  rw [budget_of_not_inCycle h, budget_of_not_inCycle h', hc]

theorem Wires.quiet {d : Engine ω ς} {config : Config} {x : Exchange ω}
    {ready : List (Wired ω ς)} {left : List Config.Market}
    (hw : Wires d config x ready left evs e') (hd : d.cycles = e.cycles)
    (hp : ¬ e.phase.InCycle) : Quiet e evs e' := by
  refine .of_not_inCycle hw.not_began hp hw.not_inCycle (hw.cycles.trans hd) ?_
  cases hw <;> simp [Event.IsTrade]

theorem Step.quiet (st : Step e evs e') (hb : .began ∉ evs) : Quiet e evs e' := by
  cases st with
  | @waits _ suspend p q _ hsus hp =>
    refine ⟨hb, ?_, fun hn => ⟨?_, by simp⟩⟩
    · rw [Engine.budget, Engine.budget, hp]
      cases hsus <;> simp [Phase.InCycle]
    · rw [hp] at hn
      cases hsus <;> exact hn
  | setsUp hp _ hw | strategyReady hp _ hw =>
    exact hw.quiet (afterTurn_cycles e _) (by rw [hp]; exact id)
  | fetches | begins => simp at hb
  | passes hp _ _ _ hd | executes hp _ hd =>
    refine .of_inCycle hb (by rw [hp]; trivial) ?_
    rw [hd.budget, afterTurn_cycles]
  | skips hp _ hr =>
    refine .of_inCycle hb (by rw [hp]; trivial) ?_
    rw [hr.budget, afterTurn_cycles]
  | fetchIsFatal hp | executeIsFatal hp =>
    refine .of_inCycle hb (by rw [hp]; trivial) ?_
    rw [budget_of_not_inCycle id]
    simp
  | ticks hp =>
    refine .of_not_inCycle hb ?_ ?_ rfl (by simp) <;> rw [hp] <;> exact id
  | loadFails hp | adapterUnknown hp | loads hp | setUpFails hp | setUpCrashes hp
  | strategyFails hp | strategyCrashes hp | seesStop hp | alerted hp | resumes hp | leaves hp =>
    exact .of_not_inCycle hb (by rw [hp]; exact id) id (by simp) (by simp [Event.IsTrade])

theorem Follows.quiet (hm : Follows e m evs e') (hb : .began ∉ evs) (hs : Standing e) :
    Quiet e evs e' := by
  cases hm with
  | claims hl =>
    have hp : ¬ e.phase.InCycle := by
      rw [(hs.idle_of_notStarted hl).1]
      exact id
    exact .of_not_inCycle hb hp id rfl (by simp)
  | refused | asked | passes | changes | holds =>
    exact ⟨hb, Nat.le_refl _, fun hn => ⟨hn, by simp⟩⟩
  | steps _ _ st => exact st.quiet hb

/-! ## From the stop on -/

def FlagSet (e : Engine ω ς) (σ : Schedule ω) (k : Nat) : Prop :=
  (e.after σ k).stopRequested = false ∧ (e.after σ (k + 1)).stopRequested = true

/-- No cycle begins once a stop is requested. -/
theorem quiet_after (hs : ((fresh s w).after σ (k + 1)).stopRequested = true) {m : Nat}
    (h : k ≤ m) : ∃ later, (fresh s w).history σ m = (fresh s w).history σ k ++ later ∧
      Quiet ((fresh s w).after σ k) later ((fresh s w).after σ m) := by
  induction m, h using Nat.le_induction with
  | base => exact ⟨[], by simp, .refl _⟩
  | succ m h ih =>
    obtain ⟨later, hh, hc⟩ := ih
    have hmove := move_follows ((fresh s w).after σ m) (σ m)
    have hb := hmove.not_began (stopRequested_after (Nat.succ_le_succ h) hs)
    refine ⟨_, ?_, hc.trans (hmove.quiet hb (standing_after s w σ m))⟩
    rw [history, hh, List.append_assoc]

/-- Before a first cycle has begun nothing has been fetched, executed or completed. -/
theorem unbegun_after (hb : .began ∉ (fresh s w).history σ n) :
    ((fresh s w).after σ n).budget = 0 ∧ ∀ ev ∈ (fresh s w).history σ n, ¬ ev.IsTrade := by
  induction n with
  | zero => exact ⟨rfl, by simp [history]⟩
  | succ n ih =>
    rw [history, List.mem_append, not_or] at hb
    obtain ⟨hb, hb'⟩ := hb
    obtain ⟨hzero, ht⟩ := ih hb
    obtain ⟨-, hbud, htr⟩ := (move_follows _ (σ n)).quiet hb' (standing_after s w σ n)
    have hn : ¬ ((fresh s w).after σ n).phase.InCycle := by
      intro hc
      rw [budget_of_inCycle hc] at hzero
      omega
    rw [hzero] at hbud
    refine ⟨Nat.le_zero.mp hbud, ?_⟩
    rw [history, List.forall_mem_append]
    exact ⟨ht, (htr hn).2⟩

theorem history_le (e : Engine ω ς) (σ : Schedule ω) {n m : Nat} (h : n ≤ m) :
    ∃ later, e.history σ m = e.history σ n ++ later := by
  induction m, h using Nat.le_induction with
  | base => exact ⟨[], by simp⟩
  | succ m _ ih =>
    obtain ⟨later, hh⟩ := ih
    exact ⟨later ++ (e.after σ m).showing (σ m), by rw [history, hh, List.append_assoc]⟩

/-! ## Between two cycles -/

def Phase.Between : Phase ω ς → Prop
  | .checking _ | .pausing _ _ => True
  | .idle | .loading | .settingUp _ _ _ | .wiring _ _ _ _ _ _ | .fetching _ _
  | .executing _ _ _ _ _ | .alerting _ | .leaving _ => False

instance (p : Phase ω ς) : Decidable p.Between :=
  match p with
  | .checking _ | .pausing _ _ => .isTrue trivial
  | .idle | .loading | .settingUp _ _ _ | .wiring _ _ _ _ _ _ | .fetching _ _
  | .executing _ _ _ _ _ | .alerting _ | .leaving _ => .isFalse id

theorem Phase.InCycle.ne_idle {p : Phase ω ς} (h : p.InCycle) : p ≠ .idle := by
  rintro rfl
  exact h

theorem Phase.InCycle.not_between {p : Phase ω ς} (h : p.InCycle) : ¬ p.Between := by
  cases p with
  | checking | pausing => exact h.elim
  | _ => exact id

/-- Between two cycles the start sleeps only for the ticks of a pause that nobody has asked to
end. -/
theorem Step.wake_of_between (st : Step e evs e') (hb : e'.phase.Between) :
    e'.wake = e.wake ∨
      (e.stopRequested = false ∧ e'.phase = e.phase ∧ e'.cycles = e.cycles ∧
        e'.wake ≤ e.now + Pause.tick) := by
  cases st with
  | waits hsus => cases hsus <;> exact hb.elim
  | setsUp _ _ hw | strategyReady _ _ hw => exact .inl (by rw [hw.keeps.wake, afterTurn_wake])
  | begins _ _ _ hd => exact .inl hd.keeps.wake
  | passes _ _ _ _ hd | executes _ _ hd => exact .inl (by rw [hd.keeps.wake, afterTurn_wake])
  | skips _ _ hr => exact .inl (by rw [hr.keeps.wake, afterTurn_wake])
  | ticks _ hs => exact .inr ⟨hs, rfl, rfl, Nat.add_le_add_left (Nat.min_le_left _ _) _⟩
  | _ => simp

/-- Between two cycles the start wakes within a tick. -/
def WakesSoon (e : Engine ω ς) : Prop := e.phase.Between → e.wake ≤ e.now + Pause.tick

theorem WakesSoon.follows (h : e.WakesSoon) (hm : Follows e m evs e') : e'.WakesSoon := by
  intro hb
  cases hm with
  | claims => exact hb.elim
  | refused | asked | changes | holds => exact h hb
  | passes ms => exact (h hb).trans (by simp)
  | steps ha _ st =>
    have hawake : e.wake ≤ e.now := by simpa [isAsleep] using ha
    rw [st.stays.now]
    rcases st.wake_of_between hb with hw | ⟨-, -, -, hw⟩
    · rw [hw]
      exact hawake.trans (Nat.le_add_right _ _)
    · exact hw

theorem wakesSoon_after (s : Setup ω ς) (w : ω) (σ : Schedule ω) (n : Nat) :
    ((fresh s w).after σ n).WakesSoon :=
  after_of_le (fun _ _ _ _ hm h => h.follows hm) (Nat.zero_le n) fun hb => hb.elim

/-- Between two cycles the start does not sleep at all. -/
def StaysAwake (e : Engine ω ς) : Prop := e.phase.Between → e.isAsleep = false

theorem StaysAwake.follows (h : e.StaysAwake) (hs : e.stopRequested = true ∨ ¬ e.phase.Between)
    (hm : Follows e m evs e') : e'.StaysAwake := by
  intro hb
  simp only [StaysAwake, isAsleep, decide_eq_false_iff_not, Nat.not_lt] at h ⊢
  cases hm with
  | claims => exact hb.elim
  | refused | asked | changes | holds => exact h hb
  | passes ms => exact (h hb).trans (Nat.le_add_right _ _)
  | steps ha _ st =>
    have hawake : e.wake ≤ e.now := by simpa [isAsleep] using ha
    rw [st.stays.now]
    rcases st.wake_of_between hb with hw | ⟨hs', hp, -⟩
    · rw [hw]
      exact hawake
    · rcases hs with hs | hn
      · cases hs'.symm.trans hs
      · exact absurd (hp ▸ hb) hn

/-- A cycle that ends after a stop is followed by no sleep. -/
theorem staysAwake_after {e : Engine ω ς} (hc : ¬ (e.after σ k).phase.Between)
    (hs : (e.after σ (k + 1)).stopRequested = true) {m : Nat} (h : k < m) :
    (e.after σ m).StaysAwake := by
  have hnow : (e.after σ k).StaysAwake := fun hb => absurd hb hc
  have hnext : (e.after σ (k + 1)).StaysAwake := hnow.follows (.inr hc) (move_follows _ _)
  induction m, h using Nat.le_induction with
  | base => exact hnext
  | succ m h ih => exact ih.follows (.inl (stopRequested_after h hs)) (move_follows _ _)

/-! ## A cycle under way -/

/-- The markets that a cycle has still to come to, and the check before them. -/
def Phase.left : Phase ω ς → Nat
  | .fetching run _ => run.markets.length + 1
  | .executing _ _ _ left _ => left.length
  | .idle | .loading | .settingUp _ _ _ | .wiring _ _ _ _ _ _ | .checking _ | .alerting _
  | .pausing _ _ | .leaving _ => 0

/-- The program that a cycle waits for ends on the next move. -/
def ReplyComes (e : Engine ω ς) : Prop :=
  match e.phase with
  | .fetching _ p => ∃ r, (e.turn p).rest = .inl r
  | .executing _ _ _ _ p => ∃ r, (e.turn p).rest = .inl r
  | _ => False

theorem Dispatches.left_lt {d : Engine ω ς} {finished left : List (Wired ω ς)}
    (h : Dispatches d run finished left evs e') (hc : e'.phase.InCycle) :
    e'.phase.left < left.length := by
  cases h with
  | ends hr => exact absurd hc hr.not_inCycle
  | executes => exact Nat.lt_succ_self _

/-- With each reply a cycle comes closer to its end. -/
theorem Step.left_lt (st : Step e evs e') (hr : e.ReplyComes) (hc : e'.phase.InCycle) :
    e'.phase.left < e.phase.left := by
  cases st with
  | waits hsus hp ht =>
    rw [ReplyComes, hp] at hr
    cases hsus <;> first | exact hc.elim | (obtain ⟨r, hr⟩ := hr; cases hr.symm.trans ht)
  -- The balance check is counted too, so dispatching the first market is progress.
  | passes hp _ _ _ hd =>
    rw [hp]
    exact (hd.left_lt hc).trans (Nat.lt_succ_self _)
  | executes hp _ hd =>
    rw [hp]
    exact hd.left_lt hc
  | fetches hp | begins hp =>
    rw [ReplyComes, hp] at hr
    exact hr.elim
  | skips _ _ hr => exact absurd hc hr.not_inCycle
  | setsUp _ _ hw | strategyReady _ _ hw => exact absurd hc hw.not_inCycle
  | ticks hp =>
    rw [hp] at hc
    exact hc.elim
  | _ => exact hc.elim

/-- On a fair schedule the reply comes that a cycle waits for, and until then nothing is shown. -/
theorem reply_comes {count : Nat} {l : List Event} (hf : (fresh s w).Fair σ)
    (hc : ((fresh s w).after σ n).phase.InCycle)
    (hs : Story c count l ((fresh s w).after σ n).phase) :
    ∃ m, n ≤ m ∧ (fresh s w).IsTurn σ m ∧
      Lingers ((fresh s w).after σ n) ((fresh s w).after σ m) ∧
      (fresh s w).history σ m = (fresh s w).history σ n ∧
      ((fresh s w).after σ m).phase.InCycle ∧ ((fresh s w).after σ m).ReplyComes ∧
      ((fresh s w).after σ m).phase.left = ((fresh s w).after σ n).phase.left ∧
      Story c count l ((fresh s w).after σ m).phase := by
  have hl := (standing_after s w σ n).claimed hc.ne_idle
  -- A cycle is in one of these two phases, and both wait for a reply.
  match hp : ((fresh s w).after σ n).phase with
  | .fetching run p =>
    obtain ⟨m, q, r, hnm, hturn, hling, hh, hpm, hr⟩ := program_ends (.fetching run) hf hl hp
    rw [hp] at hs
    refine ⟨m, hnm, hturn, hling, hh, ?_⟩
    unfold ReplyComes
    rw [hpm]
    exact ⟨trivial, ⟨r, hr⟩, rfl, hs⟩
  | .executing run finished current left p =>
    obtain ⟨m, q, r, hnm, hturn, hling, hh, hpm, hr⟩ :=
      program_ends (.executing run finished current left) hf hl hp
    rw [hp] at hs
    refine ⟨m, hnm, hturn, hling, hh, ?_⟩
    unfold ReplyComes
    rw [hpm]
    exact ⟨trivial, ⟨r, hr⟩, rfl, hs⟩
  | .idle | .loading | .settingUp _ _ _ | .wiring _ _ _ _ _ _ | .checking _ | .alerting _
  | .pausing _ _ | .leaving _ =>
    rw [hp] at hc
    exact hc.elim

/-- How a cycle has ended that had shown `l` when the engine was `e`, and `rest` since then. -/
inductive CycleEnds (c : Config) (e : Engine ω ς) (l rest : List Event) (e' : Engine ω ς) : Prop
  | completed : Completed c (l ++ rest) → e'.cycles = e.cycles + 1 → CycleEnds c e l rest e'
  | failed : Failed c (l ++ rest) → WindsUp e' → e'.cycles = e.cycles → CycleEnds c e l rest e'

/-- **A cycle under way comes to its own end** on a fair schedule: all its markets, a network error,
or its first fatal reply. -/
theorem cycle_ends {l : List Event} (hf : (fresh s w).Fair σ)
    (hc : ((fresh s w).after σ n).phase.InCycle)
    (hs : Story c ((fresh s w).after σ n).cycles l ((fresh s w).after σ n).phase) :
    ∃ m rest, n ≤ m ∧ ((fresh s w).after σ m).phase.InCycle ∧
      (fresh s w).history σ (m + 1) = (fresh s w).history σ n ++ rest ∧
      ((fresh s w).after σ m).cycles = ((fresh s w).after σ n).cycles ∧
      CycleEnds c ((fresh s w).after σ n) l rest ((fresh s w).after σ (m + 1)) := by
  -- By induction on what the cycle has still to wait for (`Phase.left`), which each reply lowers
  -- (`Step.left_lt`).
  induction hleft : ((fresh s w).after σ n).phase.left using Nat.strong_induction_on
    generalizing n l with
  | _ left ih =>
    obtain ⟨m, hnm, hturn, hling, hh, hcm, hreply, hleftm, hsm⟩ := reply_comes hf hc hs
    have st := hturn.step hcm.ne_idle
    have hh' : (fresh s w).history σ (m + 1) = (fresh s w).history σ n ++ _ :=
      congrArg (· ++ ((fresh s w).after σ m).showing (σ m)) hh
    generalize ((fresh s w).after σ m).showing (σ m) = evs at st hh'
    rw [← hling.cycles] at hsm
    cases st.advance hcm hsm with
    | goesOn hc' hs' hcyc =>
      have hlt := st.left_lt hreply hc'
      rw [hleftm, hleft] at hlt
      rw [← hcyc] at hs'
      obtain ⟨k, rest, hmk, hck, hhk, hcyck, hend⟩ := ih _ hlt hc' hs' rfl
      refine ⟨k, evs ++ rest, by omega, hck, ?_, ?_, ?_⟩
      · rw [hhk, hh', List.append_assoc]
      · rw [hcyck, hcyc, hling.cycles]
      · have hcyc' := hcyc.trans hling.cycles
        cases hend with
        | completed hcomp hnum =>
          exact .completed (by rwa [← List.append_assoc]) (by rw [hnum, hcyc'])
        | failed hfail hw hnum =>
          exact .failed (by rwa [← List.append_assoc]) hw (by rw [hnum, hcyc'])
    | completes hcomp _ hnum =>
      exact ⟨m, _, hnm, hcm, hh', hling.cycles, .completed hcomp (by rw [hnum, hling.cycles])⟩
    | fails hfail hp hnum =>
      exact ⟨m, _, hnm, hcm, hh', hling.cycles,
        .failed hfail (.alerting hp) (by rw [hnum, hling.cycles])⟩

/-! ## A stop between two cycles -/

/-- At the top of its loop, an engine that is asked to stop returns at the time of its next turn. -/
theorem returns_of_checking (hf : (fresh s w).Fair σ)
    (hp : ((fresh s w).after σ n).phase = .checking run)
    (hs : ((fresh s w).after σ n).stopRequested = true) :
    ∃ m, n < m ∧ ReturnedWell ((fresh s w).after σ m) ∧
      ((fresh s w).Punctual σ → ((fresh s w).after σ m).now ≤ ((fresh s w).after σ n).limit) := by
  obtain ⟨m, hnm, -, hw, st, -, hlim⟩ := next_move_after (n := n) hf (by simp [hp])
  rcases st.of_checking (hw.phase.trans hp) with ⟨hsm, -, lines, he⟩ | ⟨hsm, -⟩
  · have hp' : ((fresh s w).after σ (m + 1)).phase = .leaving .ok := by rw [he]
    obtain ⟨k, hk, hr, hnow⟩ := returns_of_leaving hf hp' (by rw [he]; exact hsm)
    refine ⟨k, by omega, hr, fun hpunct => (hnow hpunct).trans ?_⟩
    rw [he]
    exact hlim hpunct
  · cases (hw.stopRequested hs).symm.trans hsm

/-- On a fair schedule, an engine that is asked to stop between two cycles returns well, at the time
of its next turn. -/
theorem returns_of_between (hf : (fresh s w).Fair σ)
    (hb : ((fresh s w).after σ n).phase.Between)
    (hs : ((fresh s w).after σ n).stopRequested = true) :
    ∃ m, n < m ∧ ReturnedWell ((fresh s w).after σ m) ∧
      ((fresh s w).Punctual σ → ((fresh s w).after σ m).now ≤ ((fresh s w).after σ n).limit) := by
  match hp : ((fresh s w).after σ n).phase with
  | .checking run => exact returns_of_checking hf hp hs
  | .pausing run deadline =>
    obtain ⟨m, hnm, -, hw, st, -, hlim⟩ := next_move_after (n := n) hf (by simp [hp])
    rcases (st.of_pausing (hw.phase.trans hp)).2 with ⟨hsm, -⟩ | ⟨-, lines, he⟩
    · cases (hw.stopRequested hs).symm.trans hsm
    · have hp' : ((fresh s w).after σ (m + 1)).phase = .checking run := by rw [he]
      obtain ⟨k, hk, hr, hnow⟩ :=
        returns_of_checking hf hp' (by rw [he]; exact hw.stopRequested hs)
      refine ⟨k, by omega, hr, fun hpunct => (hnow hpunct).trans ?_⟩
      rw [he]
      exact hlim hpunct
  | .idle | .loading | .settingUp _ _ _ | .wiring _ _ _ _ _ _ | .fetching _ _
  | .executing _ _ _ _ _ | .alerting _ | .leaving _ =>
    rw [hp] at hb
    exact hb.elim

/-! ## The end of a pause -/

theorem Step.pauses_on (st : Step e evs e') (hcyc : e'.cycles = e.cycles + 1)
    (hset : e.Settled) (hfit : e.CanShow e.interval) :
    ∃ run, e'.phase = .pausing run (e.now + e.interval * 1000) := by
  obtain ⟨d, run, hd, -, hs, hr⟩ := st.rests hcyc
  rw [← hset.interval hs] at hfit ⊢
  cases hr with
  | pauses => exact ⟨run, by rw [hd.now]⟩
  | breaksOff hn => exact absurd (hd.canShow.mpr hfit) hn

theorem Follows.of_cycle_end (hm : Follows e m evs e') (hcyc : e'.cycles = e.cycles + 1) :
    m = .work ∧ e.isAsleep = false ∧ Step e evs e' := by
  cases hm with
  | steps ha _ st => exact ⟨rfl, ha, st⟩
  | claims | refused | asked | passes | changes | holds =>
    exact absurd hcyc.symm (Nat.succ_ne_self _)

/-- What the end of a pause comes to, if it is over at `deadline`: nothing is shown until a stop is
requested before that, or the next cycle begins exactly then. -/
def GoesOn (e : Engine ω ς) (σ : Schedule ω) (n deadline : Nat) : Prop :=
  ∃ m, n ≤ m ∧ e.history σ m = e.history σ n ∧ (e.after σ m).now ≤ deadline ∧
    ((e.after σ m).stopRequested = true ∨
      (.began ∈ (e.after σ m).showing (σ m) ∧ (e.after σ m).now = deadline))

theorem GoesOn.earlier {e : Engine ω ς} {m deadline : Nat} (h : e.GoesOn σ m deadline)
    (hnm : n ≤ m) (hh : e.history σ m = e.history σ n) : e.GoesOn σ n deadline := by
  obtain ⟨k, hmk, hhk, hk⟩ := h
  exact ⟨k, hnm.trans hmk, hhk.trans hh, hk⟩

theorem goesOn_of_checking (hf : (fresh s w).Fair σ) (hpunct : (fresh s w).Punctual σ)
    (hp : ((fresh s w).after σ n).phase = .checking run)
    (hlim : ((fresh s w).after σ n).limit ≤ ((fresh s w).after σ n).now) :
    (fresh s w).GoesOn σ n ((fresh s w).after σ n).now := by
  obtain ⟨m, hnm, -, hw, st, hh, hlim'⟩ := next_move_after (n := n) hf (by simp [hp])
  have hnow : ((fresh s w).after σ m).now ≤ ((fresh s w).after σ n).now :=
    ((Nat.le_max_left _ _).trans (hlim' hpunct)).trans hlim
  refine ⟨m, hnm, hh, hnow, ?_⟩
  rcases st.of_checking (hw.phase.trans hp) with ⟨hs, -⟩ | ⟨-, -, evs, he⟩
  · exact .inl hs
  · rw [he]
    exact .inr ⟨List.mem_cons_self, hnow.antisymm hw.now⟩

/-- The next tick of a pause ends later than the last one, and no later than the pause. -/
theorem tick_lt {now wake deadline : Nat} (hawake : wake ≤ now) (hlt : now < deadline) :
    wake < now + min Pause.tick (deadline - now) ∧
      now + min Pause.tick (deadline - now) ≤ deadline := by
  have htick : 0 < Pause.tick := by decide
  omega

/-- **A pause is over exactly at its deadline**, on a fair schedule and a punctual clock. -/
theorem goesOn_of_pausing {deadline : Nat} (hf : (fresh s w).Fair σ)
    (hpunct : (fresh s w).Punctual σ)
    (hp : ((fresh s w).after σ n).phase = .pausing run deadline)
    (hlim : ((fresh s w).after σ n).limit ≤ deadline) : (fresh s w).GoesOn σ n deadline := by
  -- Every nap moves the wake-up nearer to the deadline.
  induction hleft : deadline - ((fresh s w).after σ n).wake using Nat.strong_induction_on
    generalizing n with
  | _ left ih =>
    obtain ⟨m, hnm, hturn, hw, st, hh, hlim'⟩ := next_move_after (n := n) hf (by simp [hp])
    have hnow : ((fresh s w).after σ m).now ≤ deadline :=
      ((Nat.le_max_left _ _).trans (hlim' hpunct)).trans hlim
    have hawake : ((fresh s w).after σ m).wake ≤ ((fresh s w).after σ m).now := by
      simpa [isAsleep] using hturn.2
    obtain ⟨hshow, ⟨-, hlt, he⟩ | ⟨hs | hd, lines, he⟩⟩ := st.of_pausing (hw.phase.trans hp)
    · obtain ⟨hlater, hle⟩ := tick_lt hawake hlt
      have hnext : (fresh s w).GoesOn σ (m + 1) deadline := by
        refine ih _ ?_ (by rw [he]; exact hw.phase.trans hp) ?_ rfl
        · rw [he, ← hleft, ← hw.wake]
          exact Nat.sub_lt_sub_left (hlater.trans_le hle) hlater
        · rw [he]
          exact Nat.max_le.mpr ⟨hnow, hle⟩
      refine hnext.earlier (by omega) ?_
      rw [history, hshow, List.append_nil, hh]
    · exact ⟨m, hnm, hh, hnow, .inl hs⟩
    -- At the deadline: a punctual clock has not run past it.
    · have hnow' : ((fresh s w).after σ (m + 1)).now = deadline := by
        rw [st.stays.now]
        exact hnow.antisymm hd
      have hnext : (fresh s w).GoesOn σ (m + 1) ((fresh s w).after σ (m + 1)).now := by
        have hp' : ((fresh s w).after σ (m + 1)).phase = .checking run := by rw [he]
        refine goesOn_of_checking hf hpunct hp' ?_
        rw [he]
        exact Nat.max_le.mpr ⟨Nat.le_refl _, hawake⟩
      rw [hnow'] at hnext
      refine hnext.earlier (by omega) ?_
      rw [history, hshow, List.append_nil, hh]

/-! ## Stopping in time -/

/-- How a run answers to a request to stop, whenever it comes, and how it pauses until there is
one. -/
structure StopsInTime (e : Engine ω ς) (σ : Schedule ω) : Prop where
  /-- Before the first cycle: no balances are fetched, no strategy is executed, and no cycle is
  completed, ever. -/
  early : ∀ k, e.FlagSet σ k → .began ∉ e.history σ k → ∀ n,
    (e.after σ n).cycles = 0 ∧ ∀ ev ∈ e.history σ n, ¬ ev.IsTrade
  /-- In a cycle: no other cycle begins, at most this one is counted, and none is slept after. -/
  inCycle : ∀ k, e.FlagSet σ k → (e.after σ k).phase.InCycle → ∀ n, k < n →
    (e.after σ n).cycles ≤ (e.after σ k).cycles + 1 ∧
    (∃ later, e.history σ n = e.history σ k ++ later ∧ .began ∉ later) ∧
    (e.after σ n).StaysAwake
  /-- The cycle under way still comes to its own end, and then the engine returns, at once if the
  cycle was completed. -/
  ends : ∀ k c, e.FlagSet σ k → (e.after σ k).phase.InCycle → e.setup.source.load = .ok c →
    e.Fair σ → ∃ n before begun rest, k ≤ n ∧ e.history σ k = before ++ begun ∧
      UnderWay c begun ∧ e.history σ (n + 1) = before ++ (begun ++ rest) ∧
      CycleEnds c (e.after σ k) begun rest (e.after σ (n + 1)) ∧
      (Failed c (begun ++ rest) ∨ (e.after σ n).CanShow e.interval →
        ∃ m, n < m ∧ (∀ j, m ≤ j → ReturnedWell (e.after σ j)) ∧
          (Completed c (begun ++ rest) → e.Punctual σ →
            (e.after σ m).now = (e.after σ (n + 1)).now))
  /-- Outside of a cycle: no balances are fetched any more, no strategy is executed, and no cycle is
  completed. -/
  outside : ∀ k, e.FlagSet σ k → ¬ (e.after σ k).phase.InCycle → ∀ n, k ≤ n →
    (e.after σ n).cycles ≤ (e.after σ k).cycles ∧
    ∃ later, e.history σ n = e.history σ k ++ later ∧ ∀ ev ∈ later, ¬ ev.IsTrade
  /-- While the alert about a fatal reply is sent: the engine returns. -/
  alerting : ∀ k, WindsUp (e.after σ k) → e.Fair σ →
    ∃ m, k ≤ m ∧ ∀ j, m ≤ j → ReturnedWell (e.after σ j)
  /-- Between two cycles: the engine returns, and a punctual clock shows at most a tick more. -/
  paused : ∀ k, e.FlagSet σ k → (e.after σ k).phase.Between → e.Fair σ →
    ∃ m, k < m ∧ (∀ j, m ≤ j → ReturnedWell (e.after σ j)) ∧
      (e.Punctual σ → (e.after σ m).now ≤ (e.after σ k).now + Pause.tick)
  /-- The next cycle begins exactly when the interval has passed since the end of the last one,
  unless a stop is requested before that. -/
  pauses : ∀ n, (e.after σ (n + 1)).cycles = (e.after σ n).cycles + 1 →
    (e.after σ n).CanShow e.interval → e.Fair σ → e.Punctual σ →
    e.GoesOn σ (n + 1) ((e.after σ n).now + e.interval * 1000)

theorem Follows.now_le (hm : Follows e m evs e') : e.now ≤ e'.now := by
  cases hm with
  | claims | refused | asked | changes | holds => exact Nat.le_refl _
  | passes ms => exact Nat.le_add_right _ _
  | steps _ _ st => exact st.stays.now.ge

/-- Between two cycles only a caller can set the request to stop. -/
theorem Follows.of_flag (hm : Follows e m evs e') (hb : e.phase.Between)
    (h0 : e.stopRequested = false) (h1 : e'.stopRequested = true) :
    e'.phase = e.phase ∧ e'.now = e.now ∧ e'.wake = e.wake := by
  cases hm with
  | claims | refused | passes | changes | holds => cases h0.symm.trans h1
  | asked => exact ⟨rfl, rfl, rfl⟩
  | steps _ _ st =>
    match hp : e.phase with
    | .checking run =>
      rcases st.of_checking hp with ⟨hs, -⟩ | ⟨-, hs, -⟩
      · cases h0.symm.trans hs
      · cases h1.symm.trans hs
    | .pausing run deadline =>
      rcases (st.of_pausing hp).2 with ⟨-, -, he⟩ | ⟨-, lines, he⟩
      · rw [he] at h1
        cases h0.symm.trans h1
      · rw [he] at h1
        cases h0.symm.trans h1
    | .idle | .loading | .settingUp _ _ _ | .wiring _ _ _ _ _ _ | .fetching _ _
    | .executing _ _ _ _ _ | .alerting _ | .leaving _ =>
      rw [hp] at hb
      exact hb.elim

theorem early_after (hflag : (fresh s w).FlagSet σ k)
    (hb : .began ∉ (fresh s w).history σ k) (n : Nat) :
    ((fresh s w).after σ n).cycles = 0 ∧
      ∀ ev ∈ (fresh s w).history σ n, ¬ ev.IsTrade := by
  have hbegan : .began ∉ (fresh s w).history σ n := by
    rcases Nat.le_total n k with hnk | hkn
    · obtain ⟨later, hh⟩ := history_le (fresh s w) σ hnk
      rw [hh, List.mem_append, not_or] at hb
      exact hb.1
    · obtain ⟨later, hh, hq⟩ := quiet_after hflag.2 hkn
      rw [hh, List.mem_append, not_or]
      exact ⟨hb, hq.began⟩
  obtain ⟨hzero, ht⟩ := unbegun_after hbegan
  exact ⟨Nat.le_zero.mp (hzero ▸ cycles_le_budget _), ht⟩

theorem isAsleep_of_limit (ha : e.isAsleep = false) : e.limit = e.now := by
  have hle : e.wake ≤ e.now := by simpa [isAsleep] using ha
  exact Nat.max_eq_left hle

/-- A cycle that is completed after a stop is followed by the return of the start, at once. -/
theorem returns_of_completed (hf : (fresh s w).Fair σ) (hkn : k ≤ n)
    (hc : ((fresh s w).after σ n).phase.InCycle)
    (hs : ((fresh s w).after σ (k + 1)).stopRequested = true)
    (hcyc : ((fresh s w).after σ (n + 1)).cycles = ((fresh s w).after σ n).cycles + 1)
    (hfit : ((fresh s w).after σ n).CanShow (fresh s w).interval) :
    ∃ m, n < m ∧ ReturnedWell ((fresh s w).after σ m) ∧ ((fresh s w).Punctual σ →
      ((fresh s w).after σ m).now = ((fresh s w).after σ (n + 1)).now) := by
  have hint := interval_congr (setup_after (fresh s w) σ n)
  obtain ⟨-, -, st⟩ := (move_follows ((fresh s w).after σ n) (σ n)).of_cycle_end hcyc
  obtain ⟨run, hp⟩ := st.pauses_on hcyc (settled_after s w σ n) (by rwa [hint])
  have hb : ((fresh s w).after σ (n + 1)).phase.Between := by
    show (((fresh s w).after σ n).move (σ n)).phase.Between
    rw [hp]
    trivial
  have hs' := stopRequested_after (Nat.succ_le_succ hkn) hs
  have hawake := staysAwake_after hc.not_between hs' (Nat.lt_succ_self n) hb
  obtain ⟨m, hnm, hr, hnow⟩ := returns_of_between hf hb hs'
  refine ⟨m, by omega, hr, fun hpunct => Nat.le_antisymm ?_ ?_⟩
  · rw [← isAsleep_of_limit hawake]
    exact hnow hpunct
  · exact after_of_le (P := fun d => ((fresh s w).after σ (n + 1)).now ≤ d.now)
      (fun _ _ _ _ hm h => h.trans hm.now_le) hnm.le (Nat.le_refl _)

theorem ends_after (hflag : (fresh s w).FlagSet σ k)
    (hc : ((fresh s w).after σ k).phase.InCycle) (hl : s.source.load = .ok c)
    (hf : (fresh s w).Fair σ) : ∃ n before begun rest, k ≤ n ∧
      (fresh s w).history σ k = before ++ begun ∧ UnderWay c begun ∧
      (fresh s w).history σ (n + 1) = before ++ (begun ++ rest) ∧
      CycleEnds c ((fresh s w).after σ k) begun rest ((fresh s w).after σ (n + 1)) ∧
      (Failed c (begun ++ rest) ∨ ((fresh s w).after σ n).CanShow (fresh s w).interval →
        ∃ m, n < m ∧ (∀ j, m ≤ j → ReturnedWell ((fresh s w).after σ j)) ∧
          (Completed c (begun ++ rest) → (fresh s w).Punctual σ →
            ((fresh s w).after σ m).now = ((fresh s w).after σ (n + 1)).now)) := by
  obtain ⟨begun, hsplit, hstory⟩ := (told_after hl w σ k).fitting
  obtain ⟨before, hh, -⟩ := hsplit.before
  obtain ⟨n, rest, hkn, hcn, hh', hcyc, hend⟩ := cycle_ends hf hc hstory
  rw [hh, List.append_assoc] at hh'
  refine ⟨n, before, begun, rest, hkn, hh, hstory.underWay hc, hh', hend, fun hwhy => ?_⟩
  -- A cycle that is complete pauses, so its deadline must fit; one that failed alerts at once.
  cases hend with
  | completed hcomp hnum =>
    have hfit := hwhy.resolve_left fun hfail => hfail.not_completed hcomp
    rw [← hcyc] at hnum
    obtain ⟨m, hnm, hr, hnow⟩ := returns_of_completed hf hkn hcn hflag.2 hnum hfit
    exact ⟨m, hnm, hr.forever, fun _ => hnow⟩
  | failed hfail hw hnum =>
    obtain ⟨m, hnm, hr⟩ := hw.returns hf
    exact ⟨m, by omega, hr, fun hcomp => absurd hcomp hfail.not_completed⟩

theorem paused_after (hflag : (fresh s w).FlagSet σ k)
    (hb : ((fresh s w).after σ k).phase.Between) (hf : (fresh s w).Fair σ) :
    ∃ m, k < m ∧ (∀ j, m ≤ j → ReturnedWell ((fresh s w).after σ j)) ∧
      ((fresh s w).Punctual σ →
        ((fresh s w).after σ m).now ≤ ((fresh s w).after σ k).now + Pause.tick) := by
  obtain ⟨hp, hnow, hwake⟩ :=
    (move_follows ((fresh s w).after σ k) (σ k)).of_flag hb hflag.1 hflag.2
  have hb' : ((fresh s w).after σ (k + 1)).phase.Between := by
    show (((fresh s w).after σ k).move (σ k)).phase.Between
    rwa [hp]
  obtain ⟨m, hkm, hr, hle⟩ := returns_of_between hf hb' hflag.2
  refine ⟨m, by omega, hr.forever, fun hpunct => (hle hpunct).trans ?_⟩
  have hsoon := wakesSoon_after s w σ k hb
  show max (((fresh s w).after σ k).move (σ k)).now (((fresh s w).after σ k).move (σ k)).wake ≤ _
  rw [hnow, hwake]
  exact Nat.max_le.mpr ⟨Nat.le_add_right _ _, hsoon⟩

theorem pauses_after
    (hcyc : ((fresh s w).after σ (n + 1)).cycles = ((fresh s w).after σ n).cycles + 1)
    (hfit : ((fresh s w).after σ n).CanShow (fresh s w).interval) (hf : (fresh s w).Fair σ)
    (hpunct : (fresh s w).Punctual σ) :
    (fresh s w).GoesOn σ (n + 1)
      (((fresh s w).after σ n).now + (fresh s w).interval * 1000) := by
  have hint := interval_congr (setup_after (fresh s w) σ n)
  obtain ⟨-, ha, st⟩ := (move_follows ((fresh s w).after σ n) (σ n)).of_cycle_end hcyc
  obtain ⟨run, hp⟩ := st.pauses_on hcyc (settled_after s w σ n) (by rwa [hint])
  rw [hint] at hp
  have hb : (((fresh s w).after σ n).move (σ n)).phase.Between := by
    rw [hp]
    trivial
  refine goesOn_of_pausing hf hpunct hp ?_
  show max (((fresh s w).after σ n).move (σ n)).now (((fresh s w).after σ n).move (σ n)).wake ≤ _
  rw [st.stays.now]
  refine Nat.max_le.mpr ⟨Nat.le_add_right _ _, ?_⟩
  rcases st.wake_of_between hb with hw | ⟨-, -, hsame, -⟩
  · rw [hw]
    exact Nat.le_add_right_of_le (by simpa [isAsleep] using ha)
  · exact absurd (hcyc.symm.trans hsame) (Nat.succ_ne_self _)

/-- **An engine stops in time**, in every order of moves. -/
theorem stopsInTime_after (s : Setup ω ς) (w : ω) (σ : Schedule ω) :
    StopsInTime (fresh s w) σ where
  early k hflag hb n := early_after hflag hb n
  inCycle k hflag hc n hkn := by
    obtain ⟨later, hh, hq⟩ := quiet_after hflag.2 hkn.le
    refine ⟨?_, ⟨later, hh, hq.began⟩, staysAwake_after hc.not_between hflag.2 hkn⟩
    rw [← budget_of_inCycle hc]
    exact (cycles_le_budget _).trans hq.budget
  ends k c hflag hc hl hf := ends_after hflag hc hl hf
  outside k hflag hc n hkn := by
    obtain ⟨later, hh, hq⟩ := quiet_after hflag.2 hkn
    refine ⟨?_, later, hh, (hq.trades hc).2⟩
    rw [← budget_of_not_inCycle hc]
    exact (cycles_le_budget _).trans hq.budget
  alerting k hw hf := hw.returns hf
  paused k hflag hb hf := paused_after hflag hb hf
  pauses n hcyc hfit hf hpunct := pauses_after hcyc hfit hf hpunct

end Engine

namespace Rehearsed

/-- A stop is requested in the pause after the second cycle. -/
def halted : Schedule Rehearsal := fun n => if n = 18 then .requestStop else schedule n

theorem halted_works (k : Nat) : ∃ n, k ≤ n ∧ halted n = .work := by
  obtain ⟨n, hkn, hn⟩ := schedule_works (max k 19)
  refine ⟨n, by omega, ?_⟩
  rw [halted, if_neg (by omega), hn]

theorem halted_passes {n ms : Nat} (h : halted n = .pass ms) : n ≠ 0 ∧ n % 12 = 0 ∧ ms = 1000 := by
  unfold halted at h
  split at h
  · cases h
  · cases n with
    | zero => cases h
    | succ n =>
      simp only [schedule] at h
      split at h
      · cases h
        exact ⟨Nat.succ_ne_zero n, by omega, rfl⟩
      · cases h

theorem stopsInTime_rehearsed :
    (Engine.fresh setup world).FlagSet halted 18 ∧ (Engine.fresh setup world).Fair halted ∧
      (Engine.fresh setup world).Punctual halted ∧
      ((Engine.fresh setup world).after halted 18).cycles = 2 ∧
      ∃ m, 18 < m ∧
        (∀ j, m ≤ j → Engine.ReturnedWell ((Engine.fresh setup world).after halted j)) ∧
        ((Engine.fresh setup world).after halted m).now ≤
          ((Engine.fresh setup world).after halted 18).now + Pause.tick := by
  have hflag : (Engine.fresh setup world).FlagSet halted 18 :=
    ⟨by decide +kernel, by decide +kernel⟩
  have hbetween : ((Engine.fresh setup world).after halted 18).phase.Between := by
    decide +kernel
  have hidle : ((Engine.fresh setup world).after halted 28).phase = .idle :=
    Engine.isIdle_iff.mp (by decide +kernel)
  have hclaimed : ((Engine.fresh setup world).after halted 28).lifecycle ≠ .notStarted := by
    decide +kernel
  have hfair : (Engine.fresh setup world).Fair halted :=
    Engine.fair_of_ended hidle hclaimed (by decide +kernel) halted_works
  have hpunct : (Engine.fresh setup world).Punctual halted := by
    refine Engine.punctual_of_ended hidle hclaimed fun n hn ms hpass => ?_
    obtain ⟨hne, hmod, rfl⟩ := halted_passes hpass
    exact (by decide +kernel : ∀ n < 28, n ≠ 0 → n % 12 = 0 →
      ((Engine.fresh setup world).after halted n).now + 1000 ≤
        ((Engine.fresh setup world).after halted n).limit) n hn hne hmod
  have hend := (Engine.stopsInTime_after setup world halted).paused 18 hflag hbetween hfair
  refine ⟨hflag, hfair, hpunct, by decide +kernel, hend.imp fun m => ?_⟩
  exact And.imp_right (And.imp_right fun h => h hpunct)

end Rehearsed

end TradingBot
