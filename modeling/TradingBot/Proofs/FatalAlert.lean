import TradingBot.Proofs.Fairness
import TradingBot.Proofs.Lifecycle

/-!
# The alert about a fatal condition

**Alerts** (`Engine.alerts`). The alerts that an engine has sent, delivered or not. They are read
off the calls among its events.

**The end of the loop** (`Engine.WindsUp`). A fatal reply or the request to stop that the loop has
seen takes the engine out of its loop. From then on it sends its alert, leaves, and returns well;
nothing takes it off this way.

**Theorem (`Engine.one_alert_for_first_fatal`).** An engine sends one alert at most, about the first
fatal reply, and none when it stops because it was asked to.
-/

namespace TradingBot

def Engine.Action.alert? : Engine.Action → Option (String × String)
  | .alert subject body => some (subject, body)
  | _ => none

def alertsIn (h : List Event) : List (String × String) :=
  (h.filterMap Event.call?).filterMap Engine.Action.alert?

/-- The first fatal reply among the events, as a condition. -/
def FirstFatal (s : Config.Engine) (h : List Event) (f : Fatal) : Prop :=
  ∃ pre ev post, h = pre ++ ev :: post ∧ (∀ x ∈ pre, ∀ g, ¬ Event.Raises s x g) ∧
    Event.Raises s ev f

/-- The event takes the engine out of its loop. -/
def Event.EndsLoop (s : Config.Engine) (ev : Event) : Prop :=
  ev = .stopSeen ∨ ∃ f, Raises s ev f

/-! ## The alerts of a run -/

theorem alertsIn_append (h h' : List Event) : alertsIn (h ++ h') = alertsIn h ++ alertsIn h' := by
  rw [alertsIn, List.filterMap_append, List.filterMap_append]
  rfl

theorem alertsIn_of_calm {s : Config.Engine} {h : List Event} (hc : ∀ ev ∈ h, ev.Calm s) :
    alertsIn h = [] := by
  rw [alertsIn, List.filterMap_eq_nil_iff]
  intro a ha
  obtain ⟨ev, hm, hcall⟩ := List.mem_filterMap.mp ha
  cases ev with
  | call b =>
    cases hcall
    cases a with
    | alert subject body => exact absurd rfl ((hc _ hm).2 subject body)
    | _ => rfl
  | _ => cases hcall

theorem alertsIn_of_raises {s : Config.Engine} {ev : Event} {f : Fatal} (hr : ev.Raises s f) :
    alertsIn [ev, .alertOf f] = [(Fatal.subject, f.body)] := by
  cases hr <;> rfl

theorem FirstFatal.unique_of_ends {s : Config.Engine} {pre : List Event} {ev : Event}
    {f g : Fatal} (hp : ∀ x ∈ pre, x.Calm s) (hr : ev.Raises s f)
    (hg : FirstFatal s (pre ++ [ev, .alertOf f]) g) : g = f := by
  obtain ⟨pre', ev', post', he, hno, hg⟩ := hg
  rcases List.append_eq_append_iff.mp he with ⟨a, rfl, ha⟩ | ⟨b, rfl, hb⟩
  · cases a with
    | nil =>
      cases ha
      exact hg.unique hr
    | cons x a =>
      simp only [List.cons_append, List.cons.injEq] at ha
      obtain ⟨rfl, -⟩ := ha
      exact absurd hr (hno _ (by simp) f)
  · cases b with
    | nil =>
      cases hb
      exact hg.unique hr
    | cons x b =>
      simp only [List.cons_append, List.cons.injEq] at hb
      obtain ⟨rfl, -⟩ := hb
      exact absurd hg ((hp _ (by simp)).1 g)

namespace EndsAtFatal

variable {s : Config.Engine} {h : List Event}

theorem alerts_of_first (he : EndsAtFatal s h) {f : Fatal} (hf : FirstFatal s h f) :
    alertsIn h = [(Fatal.subject, f.body)] := by
  rcases he with hc | ⟨pre, ev, g, rfl, hp, hr⟩
  · obtain ⟨pre, ev, post, rfl, -, hr⟩ := hf
    exact absurd hr ((hc ev (by simp)).1 f)
  · rw [alertsIn_append, alertsIn_of_calm hp, alertsIn_of_raises hr, hf.unique_of_ends hp hr]
    rfl

theorem alerts_of_none (he : EndsAtFatal s h) (hn : ∀ ev ∈ h, ∀ f, ¬ ev.Raises s f) :
    alertsIn h = [] := by
  rcases he with hc | ⟨pre, ev, g, rfl, -, hr⟩
  · exact alertsIn_of_calm hc
  · exact absurd hr (hn ev (by simp) g)

theorem alerts_length_le (he : EndsAtFatal s h) : (alertsIn h).length ≤ 1 := by
  rcases he with hc | ⟨pre, ev, g, rfl, hp, hr⟩
  · rw [alertsIn_of_calm hc]
    exact Nat.zero_le 1
  · rw [alertsIn_append, alertsIn_of_calm hp, alertsIn_of_raises hr]
    exact Nat.le_refl 1

theorem first_of_raises (he : EndsAtFatal s h) {ev : Event} (hm : ev ∈ h) {f : Fatal}
    (hf : ev.Raises s f) : ∃ g, FirstFatal s h g := by
  rcases he with hc | ⟨pre, ev', g, rfl, hp, hr⟩
  · exact absurd hf ((hc ev hm).1 f)
  · exact ⟨g, pre, ev', [.alertOf g], rfl, fun x hx => (hp x hx).1, hr⟩

end EndsAtFatal

/-! ## A stop that was seen -/

namespace Trace

variable {c : Config} {h l : List Event} {count : Nat}

theorem Last.eq_of_stopSeen (hl : Last c l) (hm : .stopSeen ∈ l) : l = [.stopSeen] := by
  cases hl with
  | nothing => cases hm
  | stopSeen => rfl
  | underWay hu => exact absurd hm hu.stopSeen_not_mem
  | failed hf =>
    cases hf with
    | fetch => simp [Event.alertOf] at hm
    | execute hg => simp [hg.stopSeen_not_mem, executions, Event.alertOf] at hm

/-- When the loop has seen the request to stop, there was no fatal reply. -/
theorem calm_of_stopSeen (ht : Traced c h count) (hm : .stopSeen ∈ h) :
    ∀ ev ∈ h, ev.Calm c.engine := by
  obtain ⟨last, hs, hl⟩ := ht
  obtain ⟨before, rfl, hb⟩ := hs.before
  rcases List.mem_append.mp hm with hm | hm
  · exact absurd rfl (hb _ hm).2
  · rw [hl.eq_of_stopSeen hm, List.forall_mem_append, List.forall_mem_singleton]
    exact ⟨fun ev hm => (hb ev hm).1, calm_mark _ (.inr (.inr rfl))⟩

end Trace

/-! ## The end of the loop -/

namespace Engine

variable {ω ς : Type} {e e' : Engine ω ς} {evs : List Event} {run : Run ω ς} {c : Config}
  {s : Setup ω ς} {w : ω} {σ : Schedule ω} {n : Nat}

def alerts (e : Engine ω ς) : List (String × String) := e.actions.toList.filterMap Action.alert?

/-- The start has returned well, and the engine is shut down with the request to stop set. -/
structure ReturnedWell (e : Engine ω ς) : Prop where
  phase : e.phase = .idle
  lifecycle : e.lifecycle = .shutdown
  stopRequested : e.stopRequested = true
  starts : ∃ others, e.starts = some .ok :: others

/-- The engine has left its loop and is on its way to return well. -/
inductive WindsUp (e : Engine ω ς) : Prop
  | alerting {p : Program ω (Except DeliveryFailure Unit)} : e.phase = .alerting p → WindsUp e
  | leaving : e.phase = .leaving .ok → e.stopRequested = true → WindsUp e
  | returned : ReturnedWell e → WindsUp e

theorem ReturnedWell.follows {m : Move ω} (h : ReturnedWell e) (hm : Follows e m evs e') :
    ReturnedWell e' := by
  obtain ⟨hp, hl, hs, others, hst⟩ := h
  cases hm with
  | claims hnew => cases hnew.symm.trans hl
  | refused => exact ⟨hp, hl, hs, _, by rw [hst]; rfl⟩
  | asked => exact ⟨hp, hl, rfl, others, hst⟩
  | passes | changes | holds => exact ⟨hp, hl, hs, others, hst⟩
  | steps _ hi => exact absurd hp hi

theorem WindsUp.step (h : WindsUp e) (hs : Standing e) (hi : e.phase ≠ .idle)
    (st : Step e evs e') : WindsUp e' := by
  cases h with
  | alerting hp =>
    rcases st.of_alerting hp with ⟨_, _, -, hq⟩ | ⟨-, hq, hstop⟩
    · exact .alerting hq
    · exact .leaving hq hstop
  | leaving hp hstop =>
    obtain ⟨-, lines, rfl⟩ := st.of_leaving hp
    cases hs with
    | unstarted _ hp' | broken _ hp' | returned _ hp' => exact absurd hp' hi
    | atWork _ _ _ hst ho => exact .returned ⟨rfl, rfl, hstop, _, ho.concluded hst _⟩
  | returned hr => exact absurd hr.phase hi

theorem ReturnedWell.forever {e : Engine ω ς} {m : Nat} (h : ReturnedWell (e.after σ m)) :
    ∀ k, m ≤ k → ReturnedWell (e.after σ k) :=
  fun _ hk => after_of_le (fun _ _ _ _ hm h => h.follows hm) hk h

theorem WindsUp.claimed (h : WindsUp e) (hs : Standing e) : e.lifecycle ≠ .notStarted := by
  cases h with
  | alerting hp => exact hs.claimed (by simp [hp])
  | leaving hp => exact hs.claimed (by simp [hp])
  | returned hr => simp [hr.lifecycle]

theorem WindsUp.follows {m : Move ω} (h : WindsUp e) (hs : Standing e)
    (hm : Follows e m evs e') : WindsUp e' := by
  have hold {d : Engine ω ς} (hp : d.phase = e.phase) (hne : e.phase ≠ .idle)
      (hstop : e.stopRequested = true → d.stopRequested = true) : WindsUp d := by
    cases h with
    | alerting hp' => exact .alerting (hp.trans hp')
    | leaving hp' hs' => exact .leaving (hp.trans hp') (hstop hs')
    | returned hr => exact absurd hr.phase hne
  by_cases hi : e.phase = .idle
  · cases h with
    | alerting hp => cases hi.symm.trans hp
    | leaving hp => cases hi.symm.trans hp
    | returned hr => exact .returned (hr.follows hm)
  · cases hm with
    | claims hl => exact absurd hl (h.claimed hs)
    | refused | asked | passes | changes | holds => exact hold rfl hi (by simp)
    | steps _ _ st => exact h.step hs hi st

/-! ## In the loop -/

theorem Rests.inLoop (h : Rests e run e') : e'.phase.InLoop ∨ e'.phase = .idle := by
  cases h with
  | pauses => exact .inl trivial
  | breaksOff => exact .inr rfl

theorem Dispatches.inLoop {finished left : List (Wired ω ς)}
    (h : Dispatches e run finished left evs e') : e'.phase.InLoop ∨ e'.phase = .idle := by
  cases h with
  | ends hr => exact hr.inLoop
  | executes => exact .inl trivial

/-- A start in the loop is not broken off but where a deadline is out of the clock's reach. -/
theorem Step.overflows (st : Step e evs e') (hp : e.phase.InLoop) (hi : e'.phase = .idle) :
    Overflows e e' := by
  cases st.outcome with
  | goesOn _ _ hne => exact absurd hi hne
  | breaksOff c _ _ _ hwhy =>
    refine hwhy.resolve_left fun hc => ?_
    unfold initCrashes at hc
    split at hc
    · next h => simp [h, Phase.InLoop] at hp
    · next h => simp [h, Phase.InLoop] at hp
    · cases hc
  | returns h => simp [h, Phase.InLoop] at hp

/-- A move in the loop stays there, or it ends the loop with an event that does so, or it breaks the
start off. -/
theorem Step.inLoop {settings : Config.Engine} (st : Step e evs e') (hp : e.phase.InLoop)
    (hset : e.phase.settings? = some settings) :
    e'.phase.InLoop ∨ (WindsUp e' ∧ ∃ ev ∈ evs, ev.EndsLoop settings) ∨ e'.phase = .idle := by
  have hloop {d : Engine ω ς} (h : d.phase.InLoop ∨ d.phase = .idle) :
      d.phase.InLoop ∨ (WindsUp d ∧ ∃ ev ∈ evs, ev.EndsLoop settings) ∨ d.phase = .idle :=
    h.imp_right .inr
  cases st with
  | waits hsus hp' =>
    rw [hp'] at hp
    cases hsus <;> first | exact .inl trivial | exact hp.elim
  | seesStop _ hs => exact .inr (.inl ⟨.leaving rfl hs, _, List.mem_singleton_self _, .inl rfl⟩)
  | fetches => exact .inl trivial
  | begins _ _ _ hd | passes _ _ _ _ hd | executes _ _ hd => exact hloop hd.inLoop
  | skips _ _ hr => exact hloop hr.inLoop
  -- A fatal event ends the loop in the move that shows it.
  | fetchIsFatal hp' _ hj =>
    rw [hp'] at hset
    cases hset
    exact .inr (.inl ⟨.alerting rfl, _, List.mem_cons_self,
      .inr ⟨_, Event.raises_of_judge hj⟩⟩)
  | executeIsFatal =>
    exact .inr (.inl ⟨.alerting rfl, _, List.mem_cons_self,
      .inr ⟨_, Event.raises_fatalOf _ _⟩⟩)
  | ticks => exact .inl hp
  | resumes => exact .inl trivial
  | _ => simp_all [Phase.InLoop]

theorem Phase.InLoop.settings? {p : Phase ω ς} (h : p.InLoop) :
    ∃ settings, p.settings? = some settings := by
  cases p with
  | checking | fetching | executing | pausing => exact ⟨_, rfl⟩
  | idle | loading | settingUp | wiring | alerting | leaving => exact h.elim

theorem Fitting.not_endsLoop {h : List Event} (hf : Fitting c e h) (hp : e.phase.InLoop) :
    ∀ ev ∈ h, ¬ ev.EndsLoop c.engine := by
  obtain ⟨last, hsplit, hs⟩ := hf
  obtain ⟨before, rfl, hb⟩ := hsplit.before
  have hlast : ∀ ev ∈ last, ev.Calm c.engine ∧ ev ≠ .stopSeen := by
    rcases hs.of_inLoop hp with rfl | hu
    · simp
    · exact fun ev hm => ⟨hu.calm ev hm, fun he => hu.stopSeen_not_mem (he ▸ hm)⟩
  intro ev hm hev
  obtain ⟨hcalm, hstop⟩ := List.forall_mem_append.mpr ⟨hb, hlast⟩ ev hm
  rcases hev with rfl | ⟨f, hf⟩
  · exact hstop rfl
  · exact hcalm.1 f hf

/-- Where an engine is that has entered its loop: in the loop, or out of it because of an event. -/
def Entered (c : Config) (e : Engine ω ς) (h : List Event) : Prop :=
  e.phase.InLoop ∨ (WindsUp e ∧ ∃ ev ∈ h, ev.EndsLoop c.engine)

theorem Entered.follows {m : Move ω} {h : List Event} (he : Entered c e h) (hst : Standing e)
    (hset : e.Settled) (hl : e.setup.source.load = .ok c) (hm : Follows e m evs e')
    (hfit : e'.cycles = e.cycles + 1 → e.CanShow e.interval) : Entered c e' (h ++ evs) := by
  rcases he with hp | ⟨hw, ev, hmem, hev⟩
  · cases hm with
    | claims hnew =>
      rw [(hst.idle_of_notStarted hnew).1] at hp
      exact hp.elim
    | refused | asked | passes | changes | holds => exact .inl hp
    | steps _ _ st =>
      obtain ⟨settings, hs⟩ := hp.settings?
      obtain ⟨c', hl', rfl⟩ := hset settings hs
      cases hl.symm.trans hl'
      rcases st.inLoop hp hs with hp' | ⟨hw, ev, hmem, hev⟩ | hi
      · exact .inl hp'
      · exact .inr ⟨hw, ev, List.mem_append_right _ hmem, hev⟩
      · obtain ⟨hc, settings, hs, hn⟩ := st.overflows hp hi
        rw [hset.interval hs] at hn
        exact absurd (hfit hc) hn
  · exact .inr ⟨hw.follows hst hm, ev, List.mem_append_left _ hmem, hev⟩

theorem entered_after (hl : s.source.load = .ok c) {k : Nat}
    (hk : ((fresh s w).after σ k).phase.InLoop) (hkn : k ≤ n)
    (hd : (fresh s w).DeadlinesFit σ n) :
    Entered c ((fresh s w).after σ n) ((fresh s w).history σ n) := by
  induction n, hkn using Nat.le_induction with
  | base => exact .inl hk
  | succ n _ ih =>
    have ih := ih fun m hm => hd m (Nat.lt_succ_of_lt hm)
    have hset := setup_after (fresh s w) σ n
    refine ih.follows (standing_after s w σ n) (settled_after s w σ n) ?_ (move_follows _ _) ?_
    · rw [hset]
      exact hl
    · rw [interval_congr hset]
      exact hd n (Nat.lt_succ_self n)

/-! ## The end of the run -/

theorem next_move_after (hf : (fresh s w).Fair σ) (hi : ((fresh s w).after σ n).phase ≠ .idle) :
    ∃ m, NextMove (fresh s w) σ n m :=
  next_move hf ((standing_after s w σ n).claimed hi) hi

/-- The start that leaves with a good result returns at its next turn. -/
theorem returns_of_leaving (hf : (fresh s w).Fair σ)
    (hp : ((fresh s w).after σ n).phase = .leaving .ok)
    (hs : ((fresh s w).after σ n).stopRequested = true) :
    ∃ m, n < m ∧ ReturnedWell ((fresh s w).after σ m) ∧
      ((fresh s w).Punctual σ → ((fresh s w).after σ m).now ≤ ((fresh s w).after σ n).limit) := by
  obtain ⟨m, hnm, -, hw, st, -, hlim⟩ := next_move_after (n := n) hf (by simp [hp])
  have hpm := hw.phase.trans hp
  have hup := (WindsUp.leaving hpm (hw.stopRequested hs)).step (standing_after s w σ m)
    (by simp [hpm]) st
  obtain ⟨-, lines, he⟩ := st.of_leaving hpm
  refine ⟨m + 1, by omega, ?_, fun hpunct => ?_⟩
  · cases hup with
    | alerting hp' | leaving hp' => simp [he] at hp'
    | returned hr => exact hr
  · rw [st.stays.now]
    exact Nat.le_trans (Nat.le_max_left _ _) (hlim hpunct)

/-- **On a fair schedule the start returns well** once the engine has left its loop. -/
theorem WindsUp.returns (h : WindsUp ((fresh s w).after σ n)) (hf : (fresh s w).Fair σ) :
    ∃ m, n ≤ m ∧ ∀ k, m ≤ k → ReturnedWell ((fresh s w).after σ k) := by
  suffices hr : ∃ m, n ≤ m ∧ ReturnedWell ((fresh s w).after σ m) by
    obtain ⟨m, hnm, hr⟩ := hr
    exact ⟨m, hnm, hr.forever⟩
  cases h with
  | alerting hp =>
    have hl := (standing_after s w σ n).claimed (by simp [hp])
    obtain ⟨m, q, a, hnm, hturn, -, -, hpm, hend⟩ := program_ends .alerting hf hl hp
    have st := hturn.step (by simp [hpm])
    rcases st.of_alerting hpm with ⟨ms, q', hwait, -⟩ | ⟨-, hp', hs'⟩
    · cases hend.symm.trans hwait
    · obtain ⟨k, hk, hr, -⟩ := returns_of_leaving hf hp' hs'
      exact ⟨k, by omega, hr⟩
  | leaving hp hs =>
    obtain ⟨k, hk, hr, -⟩ := returns_of_leaving hf hp hs
    exact ⟨k, by omega, hr⟩
  | returned hr => exact ⟨n, Nat.le_refl n, hr⟩

theorem alerts_eq (s : Setup ω ς) (w : ω) (σ : Schedule ω) (n : Nat) :
    ((fresh s w).after σ n).alerts = alertsIn ((fresh s w).history σ n) := by
  rw [alerts, alertsIn, ← actions_after (fresh s w) σ n rfl]

/-- **One alert at most.** Whatever the components reply and whenever a stop is requested: an engine
sends no second alert. It sends one as soon as there is a fatal reply, about the first such reply;
without one, or when the loop has seen the request to stop, it sends none. A network error of the
balance fetch is not fatal. An engine that has entered its loop stays there until such an event ends
it, and then the start returns well, with the engine shut down and the request to stop set. -/
theorem one_alert_for_first_fatal (s : Setup ω ς) (w : ω) (σ : Schedule ω) (n : Nat)
    (hl : s.source.load = .ok c) :
    let e := (fresh s w).after σ
    let h := (fresh s w).history σ n
    (e n).alerts.length ≤ 1 ∧
    (∀ f, FirstFatal c.engine h f → (e n).alerts = [(Fatal.subject, f.body)]) ∧
    ((∀ ev ∈ h, ∀ f, ¬ ev.Raises c.engine f) → (e n).alerts = []) ∧
    (.stopSeen ∈ h → (e n).alerts = []) ∧
    (∀ detail f, ¬ Event.Raises c.engine (.balances (.error (.error (.network detail)))) f) ∧
    ((∃ k ≤ n, (e k).phase.InLoop) → (fresh s w).DeadlinesFit σ n →
      ((e n).phase.InLoop ∧ ∀ ev ∈ h, ¬ ev.EndsLoop c.engine) ∨
      (WindsUp (e n) ∧ ((∃ f, FirstFatal c.engine h f) ∨ .stopSeen ∈ h) ∧
        ((fresh s w).Fair σ → ∃ m, n ≤ m ∧ ∀ k, m ≤ k → ReturnedWell (e k)))) := by
  intro e h
  have hf := (told_after hl w σ n).fitting
  have ht := hf.traced
  have hends := ht.endsAtFatal
  have halerts : (e n).alerts = alertsIn h := alerts_eq s w σ n
  rw [halerts]
  refine ⟨hends.alerts_length_le, fun f hf => hends.alerts_of_first hf, hends.alerts_of_none,
    fun hm => alertsIn_of_calm (Trace.calm_of_stopSeen ht hm), fun detail f hr => ?_, ?_⟩
  · cases hr
  · rintro ⟨k, hkn, hk⟩ hd
    rcases entered_after hl hk hkn hd with hp | ⟨hup, ev, hmem, hev⟩
    · exact .inl ⟨hp, hf.not_endsLoop hp⟩
    · refine .inr ⟨hup, ?_, hup.returns⟩
      -- The loop ends at a request to stop, which calls for no alert, or at a fatal event.
      rcases hev with rfl | ⟨f, hr⟩
      · exact .inr hmem
      · exact .inl (hends.first_of_raises hmem hr)

end Engine

namespace Rehearsed

theorem schedule_works (k : Nat) : ∃ m, k ≤ m ∧ schedule m = .work := by
  refine ⟨12 * k + 1, by omega, ?_⟩
  show (if 12 * k % 12 = 11 then Move.pass 1000 else Move.work) = Move.work
  rw [Nat.mul_mod_right, if_neg (by decide)]

theorem alerts_rehearsed :
    setup.source.load = .ok config ∧ (Engine.fresh setup world).Fair schedule ∧
      (Engine.fresh setup world).DeadlinesFit schedule 40 ∧
      ((Engine.fresh setup world).after schedule 40).alerts =
        [(Fatal.subject, (Fatal.adapter "exchange API error: Invalid API key").body)] ∧
      (∃ f, FirstFatal config.engine ((Engine.fresh setup world).history schedule 40) f) ∧
      ∃ m, 40 ≤ m ∧
        ∀ k, m ≤ k → Engine.ReturnedWell ((Engine.fresh setup world).after schedule k) := by
  have hidle : ((Engine.fresh setup world).after schedule 40).phase = .idle :=
    Engine.isIdle_iff.mp (by decide +kernel)
  have hfair : (Engine.fresh setup world).Fair schedule :=
    Engine.fair_of_ended hidle (by decide +kernel) (by decide +kernel) schedule_works
  have hfit : (Engine.fresh setup world).DeadlinesFit schedule 40 := by
    unfold Engine.DeadlinesFit
    decide +kernel
  have hin : ((Engine.fresh setup world).after schedule 4).phase.InLoop := by decide +kernel
  have hout : ¬ ((Engine.fresh setup world).after schedule 40).phase.InLoop := by decide +kernel
  refine ⟨config_loads, hfair, hfit, by decide +kernel, ?_⟩
  obtain ⟨-, -, -, hstop, -, hend⟩ :=
    Engine.one_alert_for_first_fatal setup world schedule 40 config_loads
  obtain ⟨-, hf | hs, hret⟩ := (hend ⟨4, by decide, hin⟩ hfit).resolve_left (mt And.left hout)
  · exact ⟨hf, hret hfair⟩
  · exact absurd (hstop hs) (by decide +kernel)

end Rehearsed

end TradingBot
