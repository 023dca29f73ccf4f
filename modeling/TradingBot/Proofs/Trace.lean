import TradingBot.Proofs.Schedule
import TradingBot.Proofs.DecimalRange

/-!
# The form of a run's events

**Fatal replies** (`Event.Raises`). Which fatal condition a reply is, class by class.

**Cycles** (`Completed`, `UnderWay`, `Failed`). A cycle that ended without a fatal condition, what a
cycle has shown that has not ended, and a cycle that a fatal reply ended, with its alert.

**Runs** (`Traced`). Calls to put the run together, then completed cycles one after the other, then
at most one more thing: a cycle under way, one that failed, or the stop that was seen.

**Consequences** (`Traced.endsAtFatal`, `Traced.guarded`). Nothing but its alert follows a fatal
reply, and every execution follows a fetch of its own cycle that reported enough.
-/

namespace TradingBot

/-- A call that puts a run together. -/
def Event.IsInit : Event → Prop
  | .call .initExchange => True
  | .call (.initStrategy _ _) => True
  | _ => False

def Event.alertOf (f : Fatal) : Event := .call (.alert Fatal.subject f.body)

/-- The reply is this fatal condition under the engine's settings. -/
inductive Event.Raises (s : Config.Engine) : Event → Fatal → Prop
  | api (detail : String) :
      Raises s (.balances (.error (.error (.api detail))))
        (.adapter ("exchange API error: " ++ detail))
  | brokenFetch (c : Crash) : Raises s (.balances (.error (.crash c))) (.unexpected c.describe)
  | missing {b : Balances} : b.availableFor s.stopCurrency = none →
      Raises s (.balances (.ok b)) (.missingBalance s.stopCurrency b.summary)
  | tooLow {b : Balances} {amount : Decimal} : b.availableFor s.stopCurrency = some amount →
      amount.value < s.stopBalance.value →
      Raises s (.balances (.ok b)) (.emergencyStop s.stopCurrency amount s.stopBalance)
  | failure (id message : String) :
      Raises s (.executed id (.error (.failure message))) (.strategy message)
  | unexpected (id message : String) (causes : List String) :
      Raises s (.executed id (.error (.unexpected message causes)))
        (.unexpected (": ".intercalate (message :: causes)))
  | brokenExecute (id : String) (c : Crash) :
      Raises s (.executed id (.error (.crash c))) (.unexpected c.describe)

def Config.Engine.Suffices (s : Config.Engine) (b : Balances) : Prop :=
  ∃ amount, b.availableFor s.stopCurrency = some amount ∧ s.stopBalance.value ≤ amount.value

/-- The identifiers of the markets that a configuration trades on, in order. -/
def Config.marketIds (c : Config) : List String := c.enabledMarkets.map (·.id)

namespace Trace

/-- What the check of balances shows when it lets the strategies be executed. -/
inductive Clears (s : Config.Engine) : List Event → Prop
  | unwatched : ¬ s.WatchesBalance → Clears s []
  | sufficient {b : Balances} : s.WatchesBalance → s.Suffices b →
      Clears s [.call .fetchBalances, .balances (.ok b)]

/-- Strategies executed one after the other on these markets, all of them well. -/
def executions (ids : List String) : List Event :=
  ids.flatMap fun id => [.call (.execute id), .executed id (.ok ())]

/-- A cycle that ended without a fatal condition. -/
inductive Completed (c : Config) : List Event → Prop
  | executed {gate : List Event} : Clears c.engine gate →
      Completed c (.began :: gate ++ executions c.marketIds ++ [.ended])
  | skipped (detail : String) : c.engine.WatchesBalance →
      Completed c [.began, .call .fetchBalances, .balances (.error (.error (.network detail))),
        .ended]

/-- What a cycle has shown that waits for a reply. -/
inductive UnderWay (c : Config) : List Event → Prop
  | fetching : c.engine.WatchesBalance → UnderWay c [.began, .call .fetchBalances]
  | executing {gate : List Event} {done left : List String} {id : String} :
      Clears c.engine gate → done ++ id :: left = c.marketIds →
      UnderWay c (.began :: gate ++ executions done ++ [.call (.execute id)])

/-- A cycle that ended with a fatal reply to its last call, and the alert about it. -/
inductive Failed (c : Config) : List Event → Prop
  | fetch {r : Except Fault Balances} {f : Fatal} : c.engine.WatchesBalance →
      Event.Raises c.engine (.balances r) f →
      Failed c [.began, .call .fetchBalances, .balances r, .alertOf f]
  | execute {gate : List Event} {done left : List String} {id : String}
      {r : Except StrategyFault Unit} {f : Fatal} :
      Clears c.engine gate → done ++ id :: left = c.marketIds →
      Event.Raises c.engine (.executed id r) f →
      Failed c (.began :: gate ++ executions done ++
        [.call (.execute id), .executed id r, .alertOf f])

/-- What comes after the completed cycles. -/
inductive Last (c : Config) : List Event → Prop
  | nothing : Last c []
  | underWay {l : List Event} : UnderWay c l → Last c l
  | failed {l : List Event} : Failed c l → Last c l
  | stopSeen : Last c [.stopSeen]

/-- The events are calls that put a run together, so many completed cycles, and `last`. -/
def Splits (c : Config) (h : List Event) (count : Nat) (last : List Event) : Prop :=
  ∃ (opening : List Event) (cycles : List (List Event)), h = opening ++ cycles.flatten ++ last ∧
    (∀ ev ∈ opening, ev.IsInit) ∧ (∀ cycle ∈ cycles, Completed c cycle) ∧ cycles.length = count

end Trace

/-- The events of a run that has completed so many cycles. -/
def Traced (c : Config) (h : List Event) (count : Nat) : Prop :=
  ∃ last, Trace.Splits c h count last ∧ Trace.Last c last

/-! ## Longer runs -/

namespace Trace

variable {c : Config} {h evs last : List Event} {count : Nat}

theorem Splits.nil : Splits c [] 0 [] :=
  ⟨[], [], rfl, by simp, by simp, rfl⟩

theorem Splits.opens (hs : Splits c h 0 []) {ev : Event} (hi : ev.IsInit) :
    Splits c (h ++ [ev]) 0 [] := by
  obtain ⟨opening, cycles, rfl, ho, -, hl⟩ := hs
  obtain rfl := List.eq_nil_of_length_eq_zero hl
  refine ⟨opening ++ [ev], [], by simp, fun x hx => ?_, by simp, rfl⟩
  rcases List.mem_append.mp hx with hx | hx
  · exact ho x hx
  · rwa [List.mem_singleton.mp hx]

theorem Splits.extends (hs : Splits c h count last) (evs : List Event) :
    Splits c (h ++ evs) count (last ++ evs) := by
  obtain ⟨opening, cycles, rfl, ho, hc, hl⟩ := hs
  exact ⟨opening, cycles, by simp, ho, hc, hl⟩

theorem Splits.completes (hs : Splits c h count last) (hd : Completed c (last ++ evs)) :
    Splits c (h ++ evs) (count + 1) [] := by
  obtain ⟨opening, cycles, rfl, ho, hc, hl⟩ := hs
  refine ⟨opening, cycles ++ [last ++ evs], by simp, ho, fun x hx => ?_, by simp [hl]⟩
  rcases List.mem_append.mp hx with hx | hx
  · exact hc x hx
  · rwa [List.mem_singleton.mp hx]

end Trace

theorem Traced.count_eq_zero {c : Config} {h : List Event} {count : Nat} (ht : Traced c h count)
    (hi : ∀ ev ∈ h, ev.IsInit) : count = 0 := by
  obtain ⟨last, ⟨opening, cycles, rfl, -, hc, rfl⟩, -⟩ := ht
  cases cycles with
  | nil => rfl
  | cons cycle cycles =>
    have hbegan : .began ∈ cycle := by
      cases hc cycle List.mem_cons_self <;> simp
    exact absurd (hi .began (by simp [hbegan])) id

/-! ## Fatal replies -/

namespace Event

variable {s : Config.Engine}

theorem raises_of_judge {r : Except Fault Balances} {f : Fatal}
    (h : BalanceCheck.judge s.stopCurrency s.stopBalance r = .fatal f) :
    Raises s (.balances r) f := by
  match r with
  | .ok b =>
    simp only [BalanceCheck.judge, BalanceCheck.compare] at h
    split at h
    · next ha =>
      cases h
      exact .missing ha
    · next amount ha =>
      split at h
      · next hlt =>
        cases h
        exact .tooLow ha (Decimal.lt_iff_value_lt.mp hlt)
      · cases h
  | .error (.error (.network _)) => cases h
  | .error (.error (.api detail)) =>
    cases h
    exact .api detail
  | .error (.crash c) =>
    cases h
    exact .brokenFetch c

theorem raises_fatalOf (id : String) (fault : StrategyFault) :
    Raises s (.executed id (.error fault)) (Engine.fatalOf fault) := by
  cases fault with
  | failure message => exact .failure id message
  | unexpected message causes => exact .unexpected id message causes
  | crash c => exact .brokenExecute id c

theorem Raises.unique {ev : Event} {f g : Fatal} (hf : Raises s ev f) (hg : Raises s ev g) :
    f = g := by
  cases hf with
  | missing ha =>
    cases hg with
    | missing => rfl
    | tooLow hb => simp [ha] at hb
  | tooLow ha =>
    cases hg with
    | missing hb => simp [ha] at hb
    | tooLow hb =>
      rw [ha] at hb
      cases hb
      rfl
  | api | brokenFetch | failure | unexpected | brokenExecute => cases hg; rfl

theorem not_raises_of_suffices {b : Balances} (h : s.Suffices b) (f : Fatal) :
    ¬ Raises s (.balances (.ok b)) f := by
  obtain ⟨amount, ha, hle⟩ := h
  intro hr
  cases hr with
  | missing hb => simp [ha] at hb
  | tooLow hb hlt =>
    rw [ha] at hb
    cases hb
    exact absurd hle (not_le.mpr hlt)

end Event

/-! ## Fatal events and the checks before executions, seen from a whole run -/

/-- The event is neither a fatal reply nor an alert. -/
def Event.Calm (s : Config.Engine) (ev : Event) : Prop :=
  (∀ f, ¬ Raises s ev f) ∧ ∀ subject body, ev ≠ .call (.alert subject body)

/-- There is no fatal reply among the events, or there is one, and its alert is all that follows
it. -/
def EndsAtFatal (s : Config.Engine) (h : List Event) : Prop :=
  (∀ ev ∈ h, ev.Calm s) ∨
    ∃ pre ev f, h = pre ++ [ev, .alertOf f] ∧ (∀ x ∈ pre, x.Calm s) ∧ Event.Raises s ev f

/-- Every execution follows a fetch of the same cycle that reported enough of the watched
currency. -/
def Guarded (s : Config.Engine) (h : List Event) : Prop :=
  ∀ pre id post, h = pre ++ .call (.execute id) :: post →
    ∃ b before since, pre = before ++ [.began, .call .fetchBalances, .balances (.ok b)] ++ since ∧
      .began ∉ since ∧ s.Suffices b

namespace Trace

variable {c : Config} {h l : List Event} {count : Nat}

theorem calm_call {s : Config.Engine} {a : Engine.Action}
    (ha : ∀ subject body, a ≠ .alert subject body) : (Event.call a).Calm s := by
  refine ⟨fun f hr => ?_, fun subject body he => ha subject body (Event.call.inj he)⟩
  cases hr

theorem calm_of_isInit {s : Config.Engine} {ev : Event} (hi : ev.IsInit) : ev.Calm s := by
  cases ev with
  | call a =>
    refine calm_call fun subject body ha => ?_
    subst ha
    exact hi
  | began | ended | stopSeen | balances | executed => exact hi.elim

theorem calm_mark (s : Config.Engine) {ev : Event}
    (he : ev = .began ∨ ev = .ended ∨ ev = .stopSeen) : ev.Calm s := by
  refine ⟨fun f hr => ?_, fun subject body => ?_⟩
  · rcases he with rfl | rfl | rfl <;> cases hr
  · rcases he with rfl | rfl | rfl <;> simp

theorem calm_reply {s : Config.Engine} {ev : Event} (hr : ∀ f, ¬ Event.Raises s ev f)
    (hc : ev.call? = none) : ev.Calm s := by
  refine ⟨hr, fun subject body he => ?_⟩
  subst he
  cases hc

theorem calm_executions (s : Config.Engine) (ids : List String) :
    ∀ ev ∈ executions ids, ev.Calm s := by
  induction ids with
  | nil => simp [executions]
  | cons id ids ih =>
    have hok : (Event.executed id (.ok ())).Calm s := calm_reply (fun f hr => by cases hr) rfl
    exact List.forall_mem_cons.mpr ⟨calm_call (by simp), List.forall_mem_cons.mpr ⟨hok, ih⟩⟩

theorem calm_fetch (s : Config.Engine) :
    ∀ ev ∈ [Event.began, .call .fetchBalances], ev.Calm s := by
  rw [List.forall_mem_cons, List.forall_mem_singleton]
  exact ⟨calm_mark s (.inl rfl), calm_call (by simp)⟩

theorem Clears.calm {s : Config.Engine} {gate : List Event} (hg : Clears s gate) :
    ∀ ev ∈ gate, ev.Calm s := by
  cases hg with
  | unwatched => simp
  | sufficient _ hb =>
    rw [List.forall_mem_cons, List.forall_mem_singleton]
    exact ⟨calm_call (by simp), calm_reply (Event.not_raises_of_suffices hb) rfl⟩

theorem calm_upTo {gate : List Event} (hg : Clears c.engine gate) (ids : List String) :
    ∀ ev ∈ .began :: gate ++ executions ids, ev.Calm c.engine := by
  rw [List.forall_mem_append, List.forall_mem_cons]
  exact ⟨⟨calm_mark _ (.inl rfl), hg.calm⟩, calm_executions _ ids⟩

theorem Completed.calm (hc : Completed c l) : ∀ ev ∈ l, ev.Calm c.engine := by
  cases hc with
  | executed hg =>
    rw [List.forall_mem_append, List.forall_mem_singleton]
    exact ⟨calm_upTo hg _, calm_mark _ (.inr (.inl rfl))⟩
  | skipped detail =>
    have hskip : ∀ ev ∈ [Event.balances (.error (.error (.network detail))), .ended],
        ev.Calm c.engine := by
      rw [List.forall_mem_cons, List.forall_mem_singleton]
      exact ⟨calm_reply (fun f hr => by cases hr) rfl, calm_mark _ (.inr (.inl rfl))⟩
    exact List.forall_mem_append.mpr ⟨calm_fetch _, hskip⟩

theorem Clears.stopSeen_not_mem {s : Config.Engine} {gate : List Event} (hg : Clears s gate) :
    Event.stopSeen ∉ gate := by
  cases hg <;> simp

theorem Completed.stopSeen_not_mem (hc : Completed c l) : Event.stopSeen ∉ l := by
  cases hc with
  | executed hg => simp [hg.stopSeen_not_mem, executions]
  | skipped => simp

theorem Failed.not_completed (hf : Failed c l) : ¬ Completed c l := by
  intro hc
  cases hf with
  | fetch _ hr => exact (hc.calm _ (by simp)).1 _ hr
  | execute _ _ hr => exact (hc.calm _ (by simp)).1 _ hr

theorem UnderWay.calm (hu : UnderWay c l) : ∀ ev ∈ l, ev.Calm c.engine := by
  cases hu with
  | fetching => exact calm_fetch _
  | executing hg =>
    refine List.forall_mem_append.mpr ⟨calm_upTo hg _, ?_⟩
    exact List.forall_mem_singleton.mpr (calm_call (by simp))

theorem UnderWay.stopSeen_not_mem (hu : UnderWay c l) : Event.stopSeen ∉ l := by
  cases hu with
  | fetching => simp
  | executing hg => simp [hg.stopSeen_not_mem, executions]

theorem Last.endsAtFatal (hl : Last c l) : EndsAtFatal c.engine l := by
  cases hl with
  | nothing => exact .inl (by simp)
  | underWay hu => exact .inl hu.calm
  | failed hf =>
    cases hf with
    | fetch _ hr => exact .inr ⟨[.began, .call .fetchBalances], _, _, rfl, calm_fetch _, hr⟩
    | @execute gate done _ id _ _ hg hids hr =>
      -- Up to its reply, the cycle was under way.
      exact .inr ⟨.began :: gate ++ executions done ++ [.call (.execute id)], _, _, by simp,
        (UnderWay.executing hg hids).calm, hr⟩
  | stopSeen => exact .inl (List.forall_mem_singleton.mpr (calm_mark _ (.inr (.inr rfl))))

theorem Splits.before (hs : Splits c h count l) : ∃ before, h = before ++ l ∧
    ∀ ev ∈ before, ev.Calm c.engine ∧ ev ≠ .stopSeen := by
  obtain ⟨opening, cycles, rfl, ho, hc, -⟩ := hs
  refine ⟨opening ++ cycles.flatten, rfl, List.forall_mem_append.mpr ⟨?_, fun ev hm => ?_⟩⟩
  · intro ev hm
    refine ⟨calm_of_isInit (ho ev hm), ?_⟩
    rintro rfl
    exact ho _ hm
  · obtain ⟨cycle, hcy, hm⟩ := List.mem_flatten.mp hm
    refine ⟨(hc cycle hcy).calm ev hm, ?_⟩
    rintro rfl
    exact (hc cycle hcy).stopSeen_not_mem hm

theorem Splits.endsAtFatal (hs : Splits c h count l) (hl : EndsAtFatal c.engine l) :
    EndsAtFatal c.engine h := by
  obtain ⟨before, rfl, hb⟩ := hs.before
  have hcalm : ∀ ev ∈ before, ev.Calm c.engine := fun ev hm => (hb ev hm).1
  rcases hl with hl | ⟨pre, ev, f, rfl, hp, hr⟩
  · exact .inl (List.forall_mem_append.mpr ⟨hcalm, hl⟩)
  · exact .inr ⟨before ++ pre, ev, f, by simp, List.forall_mem_append.mpr ⟨hcalm, hp⟩, hr⟩

end Trace

theorem Traced.endsAtFatal {c : Config} {h : List Event} {count : Nat} (ht : Traced c h count) :
    EndsAtFatal c.engine h := by
  obtain ⟨last, hs, hl⟩ := ht
  exact hs.endsAtFatal hl.endsAtFatal

/-! ## Executions come after the check -/

namespace Trace

variable {c : Config} {h l : List Event} {count : Nat}

/-- A part of a run in which every execution follows a check of its own cycle. -/
def GuardedPart (s : Config.Engine) (l : List Event) : Prop :=
  ∀ pre id post, l = pre ++ .call (.execute id) :: post →
    ∃ b since, pre = [.began, .call .fetchBalances, .balances (.ok b)] ++ since ∧
      .began ∉ since ∧ s.Suffices b

theorem guardedPart_of_not_mem {s : Config.Engine}
    (hn : ∀ id, Event.call (.execute id) ∉ l) : GuardedPart s l := by
  rintro pre id post rfl
  exact absurd (List.mem_append_right pre List.mem_cons_self) (hn id)

/-- What follows a check that lets the strategies be executed is guarded, as long as no other cycle
begins. -/
theorem Clears.guardedPart {s : Config.Engine} {gate rest : List Event} (hg : Clears s gate)
    (hw : s.WatchesBalance) (hr : .began ∉ rest) : GuardedPart s (.began :: gate ++ rest) := by
  cases hg with
  | unwatched hn => exact absurd hw hn
  | @sufficient b _ hb =>
    intro pre id post he
    match pre with
    | [] | [_] | [_, _] => simp at he
    | ev₁ :: ev₂ :: ev₃ :: since =>
      simp only [List.cons_append, List.nil_append, List.cons.injEq] at he
      obtain ⟨rfl, rfl, rfl, rfl⟩ := he
      exact ⟨b, since, rfl, fun hm => hr (List.mem_append_left _ hm), hb⟩

theorem began_not_mem_executions (ids : List String) : Event.began ∉ executions ids := by
  simp [executions]

theorem Completed.guardedPart (hc : Completed c l) (hw : c.engine.WatchesBalance) :
    GuardedPart c.engine l := by
  cases hc with
  | executed hg =>
    rw [List.append_assoc]
    exact hg.guardedPart hw (by simp [began_not_mem_executions])
  | skipped => exact guardedPart_of_not_mem (by simp)

theorem Last.guardedPart (hl : Last c l) (hw : c.engine.WatchesBalance) :
    GuardedPart c.engine l := by
  cases hl with
  | nothing | stopSeen => exact guardedPart_of_not_mem (by simp)
  | underWay hu =>
    cases hu with
    | fetching => exact guardedPart_of_not_mem (by simp)
    | executing hg =>
      rw [List.append_assoc]
      exact hg.guardedPart hw (by simp [began_not_mem_executions])
  | failed hf =>
    cases hf with
    | fetch => exact guardedPart_of_not_mem (by simp [Event.alertOf])
    | execute hg =>
      rw [List.append_assoc]
      exact hg.guardedPart hw (by simp [began_not_mem_executions, Event.alertOf])

theorem split_flatten {α : Type} {parts : List (List α)} {pre post : List α} {x : α}
    (hs : parts.flatten = pre ++ x :: post) :
    ∃ before a b after, parts = before ++ (a ++ x :: b) :: after ∧ pre = before.flatten ++ a := by
  rcases List.flatten_eq_append_iff.mp hs with
    ⟨before, parts', rfl, rfl, hp⟩ | ⟨before, a, y, b, after, rfl, rfl, hp⟩
  · obtain ⟨skipped, b, after, rfl, hnil, -⟩ := List.cons_eq_flatten_iff.mp hp
    refine ⟨before ++ skipped, [], b, after, by simp, ?_⟩
    simpa using hnil
  · simp only [List.cons_append, List.cons.injEq] at hp
    obtain ⟨rfl, -⟩ := hp
    exact ⟨before, a, b, after, rfl, rfl⟩

end Trace

open Trace in
theorem Traced.guarded {c : Config} {h : List Event} {count : Nat} (ht : Traced c h count)
    (hw : c.engine.WatchesBalance) : Guarded c.engine h := by
  obtain ⟨last, ⟨opening, cycles, rfl, ho, hc, -⟩, hl⟩ := ht
  intro pre id post he
  have hparts : (opening :: (cycles ++ [last])).flatten = pre ++ .call (.execute id) :: post := by
    simpa using he
  obtain ⟨before, a, b, after, hsplit, rfl⟩ := split_flatten hparts
  have hmem : a ++ .call (.execute id) :: b ∈ opening :: (cycles ++ [last]) := by
    rw [hsplit]
    exact List.mem_append_right _ List.mem_cons_self
  have hguard : GuardedPart c.engine (a ++ .call (.execute id) :: b) := by
    rcases List.mem_cons.mp hmem with hm | hm
    · rw [hm]
      exact guardedPart_of_not_mem fun id' hi => ho (.call (.execute id')) hi
    · rcases List.mem_append.mp hm with hm | hm
      · exact (hc _ hm).guardedPart hw
      · exact List.mem_singleton.mp hm ▸ hl.guardedPart hw
  obtain ⟨bal, since, rfl, hn, hs⟩ := hguard a id b rfl
  exact ⟨bal, before.flatten, since, by simp, hn, hs⟩

end TradingBot
