import TradingBot.Proofs.Stopping

/-!
# Deadlines out of the clock's reach

**Broken off** (`Engine.BrokenOff`). Nothing guards the end of a cycle: where the clock cannot show
the deadline of the pause, the start crashes. It has ended then, yet the engine counts as running
from there on, and no alert was sent. A configuration is not refused for this, however long its
interval is.

**Upright** (`Engine.Upright`). As long as all deadlines fit, an engine that runs has a start at
work, and a start that has ended has shut the engine down. It returns well only because the loop has
seen the request to stop, or after the one alert about a fatal reply.

**Theorem (`Engine.upright_or_brokenOff_by_deadlines`).** If no component crashes while it is
initialised, a run is of the first kind exactly when a deadline of its did not fit. An interval that
fits into what is left of the clock is safe, and one that is longer than the whole clock breaks off
at the first cycle.
-/

namespace TradingBot

/-- The crash of a start whose deadline the clock cannot show. -/
def Crash.overflow : Crash := .text "overflow when adding duration to instant"

namespace Engine

open Trace

variable {ω ς : Type} {e e' : Engine ω ς} {m : Move ω} {h evs : List Event} {c : Config}
  {s : Setup ω ς} {w : ω} {σ : Schedule ω} {n : Nat}

/-! ## Starts that are broken off -/

/-- The start has crashed at a deadline, and nothing tells: no alert was sent, and the engine counts
as running. -/
structure BrokenOff (e : Engine ω ς) : Prop where
  phase : e.phase = .idle
  lifecycle : e.lifecycle = .running
  starts : ∃ others, e.starts = some (.crash .overflow) :: others
  alerts : e.alerts = []

theorem BrokenOff.follows (hb : BrokenOff e) (hm : Follows e m evs e') : BrokenOff e' := by
  obtain ⟨hp, hl, ⟨others, hs⟩, ha⟩ := hb
  cases hm with
  | claims hnew => cases hnew.symm.trans hl
  | refused => exact ⟨hp, hl, ⟨_, by rw [hs]; rfl⟩, ha⟩
  | asked | passes | changes | holds => exact ⟨hp, hl, ⟨others, hs⟩, ha⟩
  | steps _ hi => exact absurd hp hi

/-- A move that ends a cycle breaks the start off if the deadline does not fit. -/
theorem Step.breaksOff (st : Step e evs e') (hcyc : e'.cycles = e.cycles + 1) (hs : Standing e)
    (hset : e.Settled) (hfit : ¬ e.CanShow e.interval) (ha : e.alerts = []) : BrokenOff e' := by
  obtain ⟨d, run, hd, hp, hset', hr⟩ := st.rests hcyc
  rw [← hset.interval hset'] at hfit
  have hi : e.phase ≠ .idle := by
    intro hi
    rw [hi] at hp
    exact hp
  cases hr with
  | pauses hcan => exact absurd (hd.canShow.mp hcan) hfit
  | breaksOff =>
    cases hs with
    | unstarted _ hi' | broken _ hi' | returned _ hi' => exact absurd hi' hi
    | atWork hl _ _ hst ho =>
      refine ⟨rfl, hd.lifecycle.trans hl, ⟨_, (hd.concluded _).trans (ho.concluded hst _)⟩, ?_⟩
      show d.actions.toList.filterMap Action.alert? = []
      rw [hd.actions]
      exact ha

theorem alerts_of_inLoop (hl : s.source.load = .ok c)
    (hp : ((fresh s w).after σ n).phase.InLoop) : ((fresh s w).after σ n).alerts = [] := by
  have hf := (told_after hl w σ n).fitting
  have hno := hf.not_endsLoop hp
  rw [alerts_eq]
  exact hf.traced.endsAtFatal.alerts_of_none fun ev hm f hr => hno ev hm (.inr ⟨f, hr⟩)

/-- Once a deadline did not fit, the start is broken off for ever. -/
theorem brokenOff_after (hl : s.source.load = .ok c) (hd : ¬ (fresh s w).DeadlinesFit σ n)
    {k : Nat} (hk : n ≤ k) : BrokenOff ((fresh s w).after σ k) := by
  simp only [DeadlinesFit, not_forall] at hd
  obtain ⟨m, hmn, hcyc, hfit⟩ := hd
  obtain ⟨-, -, st⟩ := (move_follows ((fresh s w).after σ m) (σ m)).of_cycle_end hcyc
  obtain ⟨-, -, -, hp, -, -⟩ := st.rests hcyc
  rw [← interval_congr (setup_after (fresh s w) σ m)] at hfit
  have hb : BrokenOff ((fresh s w).after σ (m + 1)) :=
    st.breaksOff hcyc (standing_after s w σ m) (settled_after s w σ m) hfit
      (alerts_of_inLoop hl hp)
  exact after_of_le (fun _ _ _ _ hm hb => hb.follows hm) (by omega) hb

/-! ## Starts that return well -/

theorem Over.endsLoop {l : List Event} (ho : Over c l) : ∃ ev ∈ l, ev.EndsLoop c.engine := by
  cases ho with
  | stopSeen => exact ⟨_, List.mem_singleton_self _, .inl rfl⟩
  | failed hf =>
    cases hf with
    | fetch _ hr => exact ⟨_, by simp, .inr ⟨_, hr⟩⟩
    | execute _ _ hr => exact ⟨_, by simp, .inr ⟨_, hr⟩⟩

/-- If the start has returned well, an event among those so far has ended the loop. -/
def Earned (c : Config) (e : Engine ω ς) (h : List Event) : Prop :=
  ∀ others, e.starts = some .ok :: others → ∃ ev ∈ h, ev.EndsLoop c.engine

theorem Earned.follows (he : Earned c e h) (ht : Told c e h) (hs : Standing e)
    (hm : Follows e m evs e') : Earned c e' (h ++ evs) := by
  intro others hok
  have hold (h' : e'.starts = e.starts) : ∃ ev ∈ h ++ evs, ev.EndsLoop c.engine := by
    obtain ⟨ev, hmem, hev⟩ := he others (h' ▸ hok)
    exact ⟨ev, List.mem_append_left _ hmem, hev⟩
  cases hm with
  | claims hl => simp [(hs.idle_of_notStarted hl).2] at hok
  | refused hl =>
    rw [List.append_nil]
    obtain ⟨call, others', hst, -, -⟩ := hs.record hl
    simp only [hst, List.cons_append, List.cons.injEq] at hok
    exact he others' (by rw [hst, hok.1])
  | asked | passes | changes | holds => exact hold rfl
  | steps _ hi st =>
    cases hs with
    | unstarted _ hp | broken _ hp | returned _ hp => exact absurd hp hi
    | atWork _ _ _ hst ho =>
      cases st.outcome with
      | goesOn _ hs' => exact hold hs'
      | breaksOff _ _ hs' =>
        rw [hs', ho.concluded hst] at hok
        cases hok
      | returns hp _ hs' =>
        rw [hs', ho.concluded hst] at hok
        cases hok
        -- What has ended the loop is part of the story of a start that leaves well.
        obtain ⟨last, ⟨opening, cycles, rfl, -⟩, hover⟩ := ht.fitting
        rw [hp] at hover
        obtain ⟨ev, hmem, hev⟩ := Over.endsLoop hover
        exact ⟨ev, by simp [hmem], hev⟩

theorem earned_after (hl : s.source.load = .ok c) (w : ω) (σ : Schedule ω) (n : Nat) :
    Earned c ((fresh s w).after σ n) ((fresh s w).history σ n) := by
  induction n with
  | zero =>
    intro others hok
    cases hok
  | succ n ih => exact ih.follows (told_after hl w σ n) (standing_after s w σ n) (move_follows _ _)

/-! ## The two kinds of runs -/

/-- How an engine stands whose start has met no deadline out of reach. -/
structure Upright (c : Config) (e : Engine ω ς) (h : List Event) : Prop where
  /-- It runs exactly as long as its start is at work. -/
  running_iff : e.lifecycle = .running ↔ e.phase ≠ .idle
  /-- A start that has ended has returned, with the engine shut down. -/
  returned : ∀ r others, e.starts = some r :: others → r.IsReturn ∧ e.lifecycle = .shutdown
  /-- It has returned well only on request, or with its one alert. -/
  reason : ∀ others, e.starts = some .ok :: others →
    .stopSeen ∈ h ∨ ∃ f, FirstFatal c.engine h f ∧ e.alerts = [(Fatal.subject, f.body)]

theorem upright_after (hl : s.source.load = .ok c) (hi : (fresh s w).InitsHold σ n)
    (hd : (fresh s w).DeadlinesFit σ n) :
    Upright c ((fresh s w).after σ n) ((fresh s w).history σ n) := by
  have hs := standing_after s w σ n
  have hwork := atWork_after hi hd
  refine ⟨⟨hwork, fun hne => ?_⟩, fun r others hr => ?_, fun others hok => ?_⟩
  · cases hs with
    | unstarted _ hp | returned _ hp => exact absurd hp hne
    | atWork hrun | broken hrun => exact hrun
  · have hret := hs.isReturn_of_atWork hwork hr
    refine hs.shutdown_of_returned hr fun crash hc => ?_
    subst hc
    exact hret
  · obtain ⟨ev, hm, rfl | ⟨f, hr⟩⟩ := earned_after hl w σ n others hok
    · exact .inl hm
    · have hends := (told_after hl w σ n).fitting.traced.endsAtFatal
      obtain ⟨g, hg⟩ := hends.first_of_raises hm hr
      refine .inr ⟨g, hg, ?_⟩
      rw [alerts_eq]
      exact hends.alerts_of_first hg

/-! ## Which intervals are safe -/

theorem now_mono (e : Engine ω ς) (σ : Schedule ω) {m n : Nat} (h : m ≤ n) :
    (e.after σ m).now ≤ (e.after σ n).now :=
  after_of_le (P := fun d => (e.after σ m).now ≤ d.now)
    (fun _ _ _ _ hm h => h.trans hm.now_le) h (Nat.le_refl _)

/-- An interval that the clock can show even from now on could be shown all the time. -/
theorem deadlinesFit_of_canShow {e : Engine ω ς} (h : (e.after σ n).CanShow e.interval) :
    e.DeadlinesFit σ n := by
  intro m hm _
  have hnow := Nat.div_le_div_right (c := 1000) (now_mono e σ hm.le)
  rw [CanShow, setup_after] at h ⊢
  omega

theorem exists_cycle_end {e : Engine ω ς} (h0 : e.cycles = 0) (h : 0 < (e.after σ n).cycles) :
    ∃ m < n, (e.after σ (m + 1)).cycles = (e.after σ m).cycles + 1 := by
  induction n with
  | zero => exact absurd h0 h.ne'
  | succ n ih =>
    rcases (move_follows (e.after σ n) (σ n)).cycles with hc | hc
    · rw [after, hc] at h
      obtain ⟨m, hm, hend⟩ := ih h
      exact ⟨m, by omega, hend⟩
    · exact ⟨n, Nat.lt_succ_self n, hc⟩

theorem not_deadlinesFit {e : Engine ω ς} (h0 : e.cycles = 0) (h : 0 < (e.after σ n).cycles)
    (hlong : lastSecond < e.setup.clockOrigin + e.interval) : ¬ e.DeadlinesFit σ n := by
  intro hd
  obtain ⟨m, hm, hend⟩ := exists_cycle_end h0 h
  have hfit := hd m hm hend
  rw [CanShow, setup_after] at hfit
  omega

/-- **A start is broken off exactly where a deadline is out of reach.** Whatever the components
reply and whenever a stop is requested, if no initialisation crashes: an engine whose deadlines have
all fitted runs exactly as long as its start is at work, and the start ends by returning, with the
engine shut down, well only on request or with its alert. If one has not fitted, the start has
crashed, no alert was sent, and the engine counts as running for ever. The first kind is every run
whose interval fits into what is left of the clock, and the second every run that has counted a
cycle with an interval longer than the clock. -/
theorem upright_or_brokenOff_by_deadlines (s : Setup ω ς) (w : ω) (σ : Schedule ω) (n : Nat)
    (hl : s.source.load = .ok c) (hi : (fresh s w).InitsHold σ n) :
    let e := (fresh s w).after σ
    ((fresh s w).DeadlinesFit σ n → Upright c (e n) ((fresh s w).history σ n)) ∧
    (¬ (fresh s w).DeadlinesFit σ n → ∀ m, n ≤ m → BrokenOff (e m)) ∧
    ((e n).CanShow c.engine.cycleInterval.toNat → (fresh s w).DeadlinesFit σ n) ∧
    (0 < (e n).cycles → lastSecond < s.clockOrigin + c.engine.cycleInterval.toNat →
      ¬ (fresh s w).DeadlinesFit σ n) := by
  intro e
  have hint : (fresh s w).interval = c.engine.cycleInterval.toNat := interval_eq hl
  rw [← hint]
  exact ⟨upright_after hl hi, fun hd _ => brokenOff_after hl hd, deadlinesFit_of_canShow,
    not_deadlinesFit rfl⟩

end Engine

namespace Rehearsed

/-- The longest interval that a configuration can ask for. -/
def patient : Config :=
  { config with engine := { config.engine with cycleInterval := 18446744073709551615 } }

theorem patient_loads : patient.toSource.load = .ok patient := by decide +kernel

def patientSetup : Engine.Setup Rehearsal String := { setup with source := patient.toSource }

/-- Nobody asks the engine to stop and nothing fatal happens, but its start has ended while it
counts as running. -/
theorem patient_breaks_off :
    patientSetup.source.load = .ok patient ∧
      let e := (Engine.fresh patientSetup world).after schedule 10
      e.stopRequested = false ∧ e.alerts = [] ∧ e.cycles = 1 ∧
        e.starts = [some (.crash .overflow)] ∧ e.lifecycle = .running ∧ e.isIdle = true :=
  ⟨patient_loads, by decide +kernel⟩

theorem deadlines_rehearsed :
    (Engine.fresh patientSetup world).InitsHold schedule 10 ∧
      (∀ m, 10 ≤ m → Engine.BrokenOff ((Engine.fresh patientSetup world).after schedule m)) ∧
      (Engine.fresh setup world).InitsHold schedule 40 ∧
      Engine.Upright config ((Engine.fresh setup world).after schedule 40)
        ((Engine.fresh setup world).history schedule 40) := by
  have hi : (Engine.fresh patientSetup world).InitsHold schedule 10 := fun m hm _ _ =>
    (by decide +kernel : ∀ m < 10,
      ((Engine.fresh patientSetup world).after schedule m).initCrashes = false) m hm
  have hi' : (Engine.fresh setup world).InitsHold schedule 40 := fun m hm _ _ =>
    (by decide +kernel : ∀ m < 40,
      ((Engine.fresh setup world).after schedule m).initCrashes = false) m hm
  obtain ⟨-, hbroken, -, hlong⟩ :=
    Engine.upright_or_brokenOff_by_deadlines patientSetup world schedule 10 patient_loads hi
  obtain ⟨hupright, -, hshort, -⟩ :=
    Engine.upright_or_brokenOff_by_deadlines setup world schedule 40 config_loads hi'
  exact ⟨hi, hbroken (hlong (by decide +kernel) (by decide +kernel)), hi',
    hupright (hshort (by decide +kernel))⟩

end Rehearsed

end TradingBot
