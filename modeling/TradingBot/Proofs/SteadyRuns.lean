import TradingBot.Proofs.Blips
import TradingBot.Proofs.Contract
import TradingBot.Proofs.Deadlines

/-!
# Runs whose cycles are all the same

**The steady cycle** (`Trace.steady`). The check of the same balances, if they are watched, and then
one execution for each enabled market, all of them well.

**Steady runs** (`Trace.Steady`). Where every fetch gives these balances, the completed cycles of a
run are steady ones (`Trace.Splits.steady`), and a last part that is under way is the beginning of
one.

**Fatal replies** (`EndsAtFatal.alerts_of_raises`). The alert is about the fatal reply, wherever it
is found. It stays the only one (`Engine.alerts_le`), and the start returns well after it
(`Engine.returns_of_alert`).

**Requests** (`Engine.heard_in_visit`). On a fair schedule, whatever is heard of an execution
belongs to a visit.
-/

namespace TradingBot

namespace Trace

variable {c : Config} {b : Balances} {h l last : List Event} {count : Nat}

/-! ## The steady cycle -/

/-- The check of the same balances, if they are watched. -/
def gate (s : Config.Engine) (b : Balances) : List Event :=
  if s.WatchesBalance then [.call .fetchBalances, .balances (.ok b)] else []

/-- A cycle that executes all strategies well. -/
def steady (c : Config) (b : Balances) : List Event :=
  .began :: gate c.engine b ++ executions c.marketIds ++ [.ended]

def Gives (b : Balances) (l : List Event) : Prop := ∀ r, .balances r ∈ l → r = .ok b

theorem Gives.mono {l' : List Event} (hg : Gives b l) (hs : l' ⊆ l) : Gives b l' :=
  fun r hr => hg r (hs hr)

theorem Clears.eq_gate {s : Config.Engine} {g : List Event} (hg : Clears s g) (hb : Gives b g) :
    g = gate s b := by
  cases hg with
  | unwatched hn => rw [gate, if_neg hn]
  | sufficient hw =>
    cases hb _ (List.mem_cons_of_mem _ (List.mem_singleton_self _))
    rw [gate, if_pos hw]

theorem Clears.suffices {s : Config.Engine} {g : List Event} (hg : Clears s g) (hb : Gives b g)
    (hw : s.WatchesBalance) : s.Suffices b := by
  cases hg with
  | unwatched hn => exact absurd hw hn
  | @sufficient b' _ hs =>
    cases hb (.ok b') (by simp)
    exact hs

theorem Completed.eq_steady (hc : Completed c l) (hb : Gives b l) : l = steady c b := by
  cases hc with
  | @executed g hg =>
    rw [hg.eq_gate (hb.mono fun ev hm => by simp [hm])]
    rfl
  | skipped detail => cases hb (.error (.error (.network detail))) (by simp)

/-- A completed cycle has found the balances sufficient if they are watched. -/
theorem Completed.suffices (hc : Completed c l) (hb : Gives b l) (hw : c.engine.WatchesBalance) :
    c.engine.Suffices b := by
  cases hc with
  | executed hg => exact hg.suffices (hb.mono fun ev hm => by simp [hm]) hw
  | skipped detail => cases hb (.error (.error (.network detail))) (by simp)

theorem UnderWay.prefix_steady (hu : UnderWay c l) (hb : Gives b l) : l <+: steady c b := by
  cases hu with
  | fetching hw =>
    rw [steady, gate, if_pos hw]
    exact ⟨[.balances (.ok b)] ++ executions c.marketIds ++ [.ended], rfl⟩
  | @executing g done left id hg hids =>
    rw [hg.eq_gate (hb.mono fun ev hm => by simp [hm]), steady, ← hids, executions, executions,
      List.flatMap_append, List.flatMap_cons]
    exact ⟨[.executed id (.ok ())] ++ executions left ++ [.ended], by simp [executions]⟩

/-- Calls that put the run together, so many steady cycles, and a last part. -/
def Steady (c : Config) (b : Balances) (h : List Event) (count : Nat) (last : List Event) : Prop :=
  ∃ opening, h = opening ++ (List.replicate count (steady c b)).flatten ++ last ∧
    ∀ ev ∈ opening, ev.IsInit

/-- Where all fetches give the same balances, all completed cycles are the same. -/
theorem Splits.steady (hs : Splits c h count last) (hb : Gives b h) : Steady c b h count last := by
  obtain ⟨opening, cycles, rfl, ho, hc, rfl⟩ := hs
  have hall : ∀ cycle ∈ cycles, cycle = Trace.steady c b := fun cycle hm =>
    (hc cycle hm).eq_steady (hb.mono fun ev hev => by
      simpa using .inr (.inl ⟨cycle, hm, hev⟩))
  exact ⟨opening, by rw [← List.eq_replicate_of_mem hall], ho⟩

/-- What is under way is the beginning of a steady cycle, unless the run has failed. -/
theorem Last.prefix_steady (hl : Last c last) (hb : Gives b last) (hno : .stopSeen ∉ last) :
    last <+: Trace.steady c b ∨ Failed c last := by
  cases hl with
  | nothing => exact .inl List.nil_prefix
  | underWay hu => exact .inl (hu.prefix_steady hb)
  | failed hf => exact .inr hf
  | stopSeen => simp at hno

theorem executed_mem_executions {ids : List String} {id : String} (h : id ∈ ids) :
    .executed id (.ok ()) ∈ executions ids :=
  List.mem_flatMap.mpr ⟨id, h, by simp⟩

theorem Splits.last_subset (hs : Splits c h count last) : last ⊆ h := by
  obtain ⟨opening, cycles, rfl, -⟩ := hs
  exact List.subset_append_right _ _

theorem Splits.exists_completed (hs : Splits c h count last) (h0 : 0 < count) :
    ∃ cycle, Completed c cycle ∧ cycle ⊆ h := by
  obtain ⟨opening, cycles, rfl, -, hc, rfl⟩ := hs
  obtain ⟨cycle, hm⟩ := List.exists_mem_of_length_pos h0
  refine ⟨cycle, hc cycle hm, fun ev hev => ?_⟩
  simpa using .inr (.inl ⟨cycle, hm, hev⟩)

end Trace

/-! ## Fatal replies -/

theorem EndsAtFatal.alerts_of_raises {s : Config.Engine} {h : List Event} (he : EndsAtFatal s h)
    {ev : Event} {f : Fatal} (hm : ev ∈ h) (hr : ev.Raises s f) :
    alertsIn h = [(Fatal.subject, f.body)] := by
  rcases he with hc | ⟨pre, ev', g, rfl, hp, hg⟩
  · exact absurd hr ((hc ev hm).1 f)
  · have hev : ev = ev' := by
      rcases List.mem_append.mp hm with hm | hm
      · exact absurd hr ((hp ev hm).1 f)
      · rcases List.mem_cons.mp hm with he | hm
        · exact he
        · rw [List.mem_singleton.mp hm] at hr
          cases hr
    subst hev
    rw [alertsIn_append, alertsIn_of_calm hp, alertsIn_of_raises hg, hg.unique hr]
    rfl

/-- A cycle that failed shows a fatal reply to a fetch or to an execution. -/
theorem Trace.Failed.exists_raises {c : Config} {l : List Event} (hf : Trace.Failed c l) :
    ∃ ev ∈ l, ∃ f, ev.Raises c.engine f := by
  cases hf with
  | fetch _ hr => exact ⟨_, by simp, _, hr⟩
  | execute _ _ hr => exact ⟨_, by simp, _, hr⟩

namespace Engine

open Trace

variable {ω ς τ : Type} {s : Setup ω ς} {w : ω} {σ : Schedule ω} {c : Config} {n m : Nat}
  {hear : LogLine → ω → List τ}

/-- A run has sent its alert exactly if its last cycle has failed. -/
theorem alerts_ne_nil_iff (hl : s.source.load = .ok c) {count : Nat} {last : List Event}
    (hs : Splits c ((fresh s w).history σ n) count last) (hlast : Last c last) :
    ((fresh s w).after σ n).alerts ≠ [] ↔ Failed c last := by
  rw [alerts_eq]
  refine ⟨hlast.failed_of_alert hs, fun hfail => ?_⟩
  obtain ⟨ev, hm, f, hr⟩ := hfail.exists_raises
  have hends := (told_after hl w σ n).fitting.traced.endsAtFatal
  simp [hends.alerts_of_raises (hs.last_subset hm) hr]

theorem alerts_le (hl : s.source.load = .ok c) (h : n ≤ m)
    (ha : ((fresh s w).after σ n).alerts ≠ []) :
    ((fresh s w).after σ m).alerts = ((fresh s w).after σ n).alerts := by
  have hlen := (told_after hl w σ m).fitting.traced.endsAtFatal.alerts_length_le
  obtain ⟨later, hh⟩ := history_le (fresh s w) σ h
  have hpos := List.length_pos_iff.mpr ha
  rw [alerts_eq] at hpos
  rw [hh, alertsIn_append, List.length_append] at hlen
  rw [alerts_eq, alerts_eq, hh, alertsIn_append,
    List.eq_nil_of_length_eq_zero (by omega : (alertsIn later).length = 0), List.append_nil]

/-- Only the loop is told a fatal reply. -/
theorem Step.inLoop_of_raises {e e' : Engine ω ς} {evs : List Event} {ev : Event} {f : Fatal}
    (st : Step e evs e') (hm : ev ∈ evs) (hr : ev.Raises c.engine f) : e.phase.InLoop := by
  cases st with
  | seesStop hp | fetches hp | begins hp | passes hp | skips hp | fetchIsFatal hp | executes hp
  | executeIsFatal hp =>
    rw [hp]
    trivial
  | setsUp _ _ hw | strategyReady _ _ hw =>
    have hinit : ev.IsInit := by simpa using List.filter_eq_nil_iff.mp hw.played ev hm
    exact absurd hr ((calm_of_isInit hinit).1 f)
  | loads =>
    rw [List.mem_singleton.mp hm] at hr
    cases hr
  | _ => cases hm

theorem Follows.inLoop_of_raises {e e' : Engine ω ς} {m : Move ω} {evs : List Event} {ev : Event}
    {f : Fatal} (hf : Follows e m evs e') (hm : ev ∈ evs) (hr : ev.Raises c.engine f) :
    e.phase.InLoop := by
  cases hf with
  | steps _ _ st => exact st.inLoop_of_raises hm hr
  | _ => cases hm

theorem inLoop_of_raises {e : Engine ω ς} {ev : Event} {f : Fatal} (hm : ev ∈ e.history σ n)
    (hr : ev.Raises c.engine f) : ∃ k ≤ n, (e.after σ k).phase.InLoop := by
  induction n with
  | zero => cases hm
  | succ n ih =>
    rcases List.mem_append.mp hm with hm | hm
    · obtain ⟨k, hk, hp⟩ := ih hm
      exact ⟨k, Nat.le_succ_of_le hk, hp⟩
    · exact ⟨n, Nat.le_succ n, (move_follows (e.after σ n) (σ n)).inLoop_of_raises hm hr⟩

/-- **After its alert the start returns well** on a fair schedule. -/
theorem returns_of_alert (hl : s.source.load = .ok c) (hf : (fresh s w).Fair σ)
    (ha : ((fresh s w).after σ n).alerts ≠ []) :
    ∃ m, n ≤ m ∧ ∀ k, m ≤ k → ReturnedWell ((fresh s w).after σ k) := by
  have hd : (fresh s w).DeadlinesFit σ n := by
    by_contra hd
    exact ha (brokenOff_after hl hd (Nat.le_refl n)).alerts
  obtain ⟨last, hs, hlast⟩ := (told_after hl w σ n).fitting.traced
  obtain ⟨ev, hm, f, hr⟩ := ((alerts_ne_nil_iff hl hs hlast).mp ha).exists_raises
  obtain ⟨k, hkn, hk⟩ := inLoop_of_raises (hs.last_subset hm) hr
  rcases entered_after hl hk hkn hd with hp | ⟨hup, -⟩
  · exact absurd (alerts_of_inLoop hl hp) ha
  · exact hup.returns hf

/-- In the loop, each enabled market has its strategy. -/
theorem Fitting.idsOf_wired {e : Engine ω ς} {h : List Event} (hf : Fitting c e h)
    (hp : e.phase.InLoop) : idsOf e.phase.wired = c.marketIds := by
  obtain ⟨last, -, hstory⟩ := hf
  cases hphase : e.phase with
  | checking | fetching | pausing =>
    rw [hphase] at hstory
    exact hstory.1.markets
  | executing run finished current left =>
    rw [hphase] at hstory
    rw [Phase.wired, idsOf, List.map_append, List.map_cons]
    exact hstory.2.1
  | _ =>
    rw [hphase] at hp
    exact hp.elim

/-! ## Requests -/

/-- As long as nothing is shown, the visits stay, and more may be heard. -/
theorem visits_of_quiet (hear : LogLine → ω → List τ) {e : Engine ω ς} (h : n ≤ m)
    (hh : e.history σ m = e.history σ n) :
    ∃ more, e.visits hear σ m =
      { e.visits hear σ n with pending := (e.visits hear σ n).pending ++ more } := by
  induction m, h using Nat.le_induction with
  | base => exact ⟨[], by simp⟩
  | succ m h ih =>
    obtain ⟨later, hlater⟩ := history_le e σ h
    rw [history, hlater, List.append_assoc, List.append_right_eq_self, List.append_eq_nil_iff] at hh
    obtain ⟨rfl, hshow⟩ := hh
    obtain ⟨more, hv⟩ := ih (by rw [hlater, List.append_nil])
    refine ⟨more ++ (e.after σ m).hearing hear (σ m), ?_⟩
    rw [visits, hshow, hv, Visits.noteMove, List.foldl_nil, List.append_assoc]

theorem ended_subset_foldl (evs : List Event) (v : Visits τ) :
    v.ended ⊆ (evs.foldl Visits.note v).ended := by
  induction evs generalizing v with
  | nil => exact List.Subset.refl _
  | cons ev evs ih =>
    refine List.Subset.trans ?_ (ih (v.note ev))
    cases ev with
    | call a => cases a <;> exact List.Subset.refl _
    | executed => exact List.subset_append_left _ _
    | began | ended | stopSeen | balances => exact List.Subset.refl _

/-- **All that is heard of an execution belongs to its visit**, to which a fair schedule comes. -/
theorem heard_in_visit {run : Run ω ς} {finished left : List (Wired ω ς)} {current : Wired ω ς}
    {p : Program ω (Except StrategyFault Unit × ς)} (hf : (fresh s w).Fair σ)
    (hp : ((fresh s w).after σ n).phase = .executing run finished current left p) {x : τ}
    (hx : x ∈ ((fresh s w).visits hear σ n).pending) :
    ∃ m, ∃ v ∈ ((fresh s w).visits hear σ m).ended, v.marketId = current.market.id ∧
      x ∈ v.heard := by
  have hl := (standing_after s w σ n).claimed (by simp [hp])
  obtain ⟨m, q, ⟨r, state⟩, hnm, ⟨hwork, hawake⟩, -, hh, hpm, hend⟩ :=
    program_ends (.executing run finished current left) hf hl hp
  -- Until the turn that ends the call nothing is shown, so nothing pending is lost.
  obtain ⟨more, hv⟩ := visits_of_quiet hear hnm hh
  have hshow : ((fresh s w).after σ m).showing (σ m) = .executed current.market.id r ::
      ((fresh s w).after σ m).news ((fresh s w).after σ m).work := by
    rw [hwork, showing, shown, hawake, learned, hpm]
    dsimp only
    rw [hend]
    rfl
  refine ⟨m + 1, ⟨current.market.id, ((fresh s w).visits hear σ m).pending ++
    ((fresh s w).after σ m).hearing hear (σ m), r⟩, ?_, rfl, ?_⟩
  · rw [visits, hshow, Visits.noteMove, List.foldl_cons]
    refine ended_subset_foldl _ _ ?_
    rw [Visits.note]
    exact List.mem_append_right _ (List.mem_singleton_self _)
  · rw [hv]
    exact List.mem_append_left _ (List.mem_append_left _ hx)

end Engine

end TradingBot
