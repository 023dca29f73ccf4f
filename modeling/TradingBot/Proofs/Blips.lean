import Mathlib.Data.List.Basic
import TradingBot.Proofs.Score

/-!
# Network errors that nobody notices

**Scripts with blips** (`Score.Item`). A script into which network errors were put anywhere, any
finite number of them, beside the script without them.

**Delayed runs** (`Delayed`). A run that shows the same executions with the same outcomes and the
same alert as another one, but has fetched the balances a number of times more, and has completed as
many cycles more. A score with blips is delayed by those that it has come to
(`Score.exists_clean`, `Score.exists_spoilt`).

**Theorem (`Engine.blips_unseen`).** Of two runs of a configuration, one with blips and one without,
nobody but the exchange can tell which is which.
-/

namespace TradingBot

/-! ## What is seen of a run -/

/-- The event is an execution, what it comes to, or an alert. -/
def Event.isDealing : Event → Bool
  | .executed _ _ | .call (.execute _) | .call (.alert _ _) => true
  | .began | .ended | .stopSeen | .balances _ | .call .initExchange | .call (.initStrategy _ _)
  | .call .fetchBalances => false

def Event.isFetch : Event → Bool
  | .call .fetchBalances => true
  | .began | .ended | .stopSeen | .balances _ | .executed _ _ | .call .initExchange
  | .call (.initStrategy _ _) | .call (.execute _) | .call (.alert _ _) => false

def Event.isReply : Event → Bool
  | .balances _ => true
  | .began | .ended | .stopSeen | .executed _ _ | .call _ => false

def Event.isEnd : Event → Bool
  | .ended => true
  | .began | .stopSeen | .balances _ | .executed _ _ | .call _ => false

/-- What strategies and alerts show of a run. -/
def dealings (h : List Event) : List Event := h.filter Event.isDealing

def fetchesIn (h : List Event) : Nat := h.countP Event.isFetch

/-- The fetches of balances that have been replied to. -/
def repliesIn (h : List Event) : Nat := h.countP Event.isReply

/-- The cycles that have ended without a fatal condition. -/
def endsIn (h : List Event) : Nat := h.countP Event.isEnd

/-- `h'` shows what `h` does, after so many more cycles that have come no further than to the fetch
of balances. -/
structure Delayed (count : Nat) (h h' : List Event) : Prop where
  dealings : dealings h' = dealings h
  fetches : fetchesIn h' = fetchesIn h + count
  ends : endsIn h' = endsIn h + count

theorem Delayed.refl (h : List Event) : Delayed 0 h h := ⟨rfl, rfl, rfl⟩

section

variable {count : Nat} {h h' l : List Event}

theorem dealings_append (h h' : List Event) : dealings (h ++ h') = dealings h ++ dealings h' :=
  List.filter_append _ _

theorem fetchesIn_append (h h' : List Event) :
    fetchesIn (h ++ h') = fetchesIn h + fetchesIn h' := List.countP_append

theorem repliesIn_append (h h' : List Event) :
    repliesIn (h ++ h') = repliesIn h + repliesIn h' := List.countP_append

theorem endsIn_append (h h' : List Event) : endsIn (h ++ h') = endsIn h + endsIn h' :=
  List.countP_append

theorem Delayed.append (hd : Delayed count h h') (l : List Event) :
    Delayed count (l ++ h) (l ++ h') := by
  refine ⟨?_, ?_, ?_⟩
  · rw [dealings_append, dealings_append, hd.dealings]
  · rw [fetchesIn_append, fetchesIn_append, hd.fetches, Nat.add_assoc]
  · rw [endsIn_append, endsIn_append, hd.ends, Nat.add_assoc]

/-- The cycle in which the balances cannot be fetched this time. -/
def skipped (detail : String) : List Event :=
  [.began, .call .fetchBalances, .balances (.error (.error (.network detail))), .ended]

theorem Delayed.skips (hd : Delayed count h h') (detail : String) :
    Delayed (count + 1) h (skipped detail ++ h') := by
  refine ⟨?_, ?_, ?_⟩
  · rw [dealings_append, hd.dealings]
    rfl
  · rw [fetchesIn_append, hd.fetches, Nat.add_comm, Nat.add_assoc]
    rfl
  · rw [endsIn_append, hd.ends, Nat.add_comm, Nat.add_assoc]
    rfl

/-- What does not hold of the two calls that put a run together. -/
theorem Event.IsInit.eq_false {q : Event → Bool} (he : q (.call .initExchange) = false)
    (hs : ∀ m s, q (.call (.initStrategy m s)) = false) : ∀ ev, ev.IsInit → q ev = false
  | .call .initExchange, _ => he
  | .call (.initStrategy m s), _ => hs m s

theorem dealings_played (h : List Event) : dealings (played h) = dealings h := by
  rw [played, dealings, List.filter_filter]
  apply List.filter_congr
  intro ev _
  by_cases hi : ev.IsInit
  · simp [hi, Event.IsInit.eq_false (q := Event.isDealing) rfl (fun _ _ => rfl) ev hi]
  · simp [hi]

theorem countP_played {q : Event → Bool} (hq : ∀ ev, ev.IsInit → q ev = false)
    (h : List Event) : (played h).countP q = h.countP q := by
  rw [played, List.countP_filter]
  apply List.countP_congr
  intro ev _
  by_cases hi : ev.IsInit <;> simp [hi, hq]

theorem repliesIn_played (h : List Event) : repliesIn (played h) = repliesIn h :=
  countP_played (Event.IsInit.eq_false rfl fun _ _ => rfl) h

theorem Delayed.of_played (hd : Delayed count (played h) (played h')) : Delayed count h h' := by
  obtain ⟨hdeal, hfetch, hend⟩ := hd
  refine ⟨?_, ?_, ?_⟩
  · rwa [dealings_played, dealings_played] at hdeal
  · have hq := Event.IsInit.eq_false (q := Event.isFetch) rfl fun _ _ => rfl
    rwa [fetchesIn, fetchesIn, countP_played hq, countP_played hq] at hfetch
  · have hq := Event.IsInit.eq_false (q := Event.isEnd) rfl fun _ _ => rfl
    rwa [endsIn, endsIn, countP_played hq, countP_played hq] at hend

end

namespace Score

open Trace

/-! ## Scripts with blips -/

/-- A reply of a script into which network errors have been put. -/
inductive Item where
  | own (r : Except Fault Balances)
  | blip (detail : String)

def Item.reply : Item → Except Fault Balances
  | .own r => r
  | .blip detail => .error (.error (.network detail))

def Item.own? : Item → Option (Except Fault Balances)
  | .own r => some r
  | .blip _ => none

def Item.isBlip : Item → Bool
  | .own _ => false
  | .blip _ => true

/-- The script with all the network errors that have been put in. -/
def spoilt (items : List Item) (rest : Script) : Script := items.map Item.reply ++ₛ rest

/-- The script without them. -/
def clean (items : List Item) (rest : Script) : Script := items.filterMap Item.own? ++ₛ rest

/-- How many of the first so many replies have been put in. -/
def blips (items : List Item) (count : Nat) : Nat := (items.take count).countP Item.isBlip

variable {c : Config} {B : Behaviour} {n : Nat} {done : List String} {p p' : List Event}
  {r : Except Fault Balances} {items : List Item} {rest : Script}

theorem repliesIn_cycle : repliesIn (cycle c B r done) = 1 := by
  have hnone : (react c B r done).1.countP Event.isReply = 0 := by
    rw [List.countP_eq_zero]
    intro ev hm hr
    have hev := afterCheck_react ev hm
    cases ev with
    | balances => exact hev
    | began | ended | stopSeen | executed | call => cases hr
  rw [cycle, repliesIn_append, repliesIn, repliesIn, hnone]
  rfl

theorem blips_nil (count : Nat) : blips [] count = 0 := by
  rw [blips, List.take_nil]
  rfl

theorem blips_own (count : Nat) : blips (.own r :: items) (1 + count) = blips items count := by
  rw [Nat.add_comm]
  rfl

theorem blips_blip (detail : String) (count : Nat) :
    blips (.blip detail :: items) (1 + count) = blips items count + 1 := by
  rw [Nat.add_comm, blips, List.take_succ_cons, List.countP_cons]
  rfl

/-- There is no blip in a cycle that has a reply of its own. -/
theorem blips_of_oneCycle (hp : p <+: cycle c B r done) :
    blips (.own r :: items) (repliesIn p) = 0 := by
  have hle : repliesIn p ≤ repliesIn (cycle c B r done) := hp.sublist.countP_le
  rw [repliesIn_cycle] at hle
  match repliesIn p, hle with
  | 0, _ | 1, _ => rfl

/-- Every cycle begins with a fetch of balances. -/
theorem fetch_prefix {s : Script} :
    [.began, .call .fetchBalances] <+: cycles c B (n + 1) s done :=
  ⟨_, rfl⟩

/-- A beginning of two lists, one after the other, is one of the first list or goes on into the
second one. -/
theorem prefix_append_iff {α : Type} {l a b : List α} :
    l <+: a ++ b ↔ l <+: a ∨ ∃ t, t <+: b ∧ l = a ++ t := by
  constructor
  · intro h
    rcases List.prefix_or_prefix_of_prefix h (List.prefix_append a b) with hl | ⟨t, rfl⟩
    · exact .inl hl
    · exact .inr ⟨t, (List.prefix_append_right_inj a).mp h, rfl⟩
  · rintro (h | ⟨t, ht, rfl⟩)
    · exact h.trans (List.prefix_append a b)
    · exact (List.prefix_append_right_inj a).mpr ht

/-- A beginning of a score is one of its first cycle, or goes on behind it. -/
theorem prefix_cons_iff {s : Script} :
    p <+: cycles c B (n + 1) (Stream'.cons r s) done ↔ p <+: cycle c B r done ∨
      ∃ left q, (react c B r done).2 = some left ∧ q <+: cycles c B n s left ∧
        p = cycle c B r done ++ q := by
  cases hr : (react c B r done).2 with
  | none =>
    have hcycles : cycles c B (n + 1) (Stream'.cons r s) done = cycle c B r done :=
      cycles_of_none hr
    simp [hcycles]
  | some left =>
    have hcycles : cycles c B (n + 1) (Stream'.cons r s) done =
        cycle c B r done ++ cycles c B n s left := cycles_of_some hr
    simp [hcycles, prefix_append_iff]

theorem exists_last_perform {ids : List String} :
    ∃ l ev, (perform B done ids).1 = l ++ [ev] ∧ ev.IsNews := by
  induction ids generalizing done with
  | nil => exact ⟨[], .ended, rfl, trivial⟩
  | cons id ids ih =>
    rw [perform]
    split
    · obtain ⟨l, ev, hl, hev⟩ := @ih (done ++ [id])
      exact ⟨.call (.execute id) :: .executed id (.ok ()) :: l, ev, by simp [hl], hev⟩
    · exact ⟨[_, _], _, rfl, trivial⟩

theorem endsWithNews_cycle : EndsWithNews (cycle c B r done) := by
  have hlast : ∃ l ev, (react c B r done).1 = l ++ [ev] ∧ ev.IsNews := by
    rw [react]
    split
    · exact exists_last_perform
    · exact ⟨[], _, rfl, trivial⟩
    · exact ⟨[], _, rfl, trivial⟩
  obtain ⟨l, ev, hl, hev⟩ := hlast
  rw [cycle, hl, EndsWithNews, ← List.append_assoc, List.getLast?_concat]
  rintro ev' ⟨⟩
  exact hev

/-- Behind a cycle that has a reply of its own, blips delay a run as they do without it. -/
theorem delayed_cycle {q q' : List Event} (hd : Delayed (blips items (repliesIn q')) q q') :
    Delayed (blips (.own r :: items) (repliesIn (cycle c B r done ++ q')))
      (cycle c B r done ++ q) (cycle c B r done ++ q') := by
  rw [repliesIn_append, repliesIn_cycle, blips_own]
  exact hd.append _

theorem delayed_skipped {q q' : List Event} (detail : String)
    (hd : Delayed (blips items (repliesIn q')) q q') :
    Delayed (blips (.blip detail :: items) (repliesIn (skipped detail ++ q'))) q
      (skipped detail ++ q') := by
  have hone : repliesIn (skipped detail) = 1 := rfl
  rw [repliesIn_append, hone, blips_blip]
  exact hd.skips detail

/-- Between a network error and the end of its cycle there is no place at which a move ends. -/
theorem prefix_skipped {s : Script} {detail : String}
    (hp : p <+: cycles c B (n + 1) (Stream'.cons (.error (.error (.network detail))) s) done)
    (hend : EndsWithNews p) : p <+: [.began, .call .fetchBalances] ∨
      ∃ q, q <+: cycles c B n s done ∧ p = skipped detail ++ q := by
  have hp : p <+: [.began, .call .fetchBalances] ++
      (.balances (.error (.error (.network detail))) :: .ended :: cycles c B n s done) := hp
  rcases prefix_append_iff.mp hp with hp | ⟨t, ht, rfl⟩
  · exact .inl hp
  match t with
  | [] => exact .inl (List.prefix_refl _)
  | [ev] =>
    obtain ⟨rfl, -⟩ := List.cons_prefix_cons.mp ht
    exact (hend _ rfl).elim
  | ev :: ev' :: q =>
    obtain ⟨rfl, ht'⟩ := List.cons_prefix_cons.mp ht
    obtain ⟨rfl, hq⟩ := List.cons_prefix_cons.mp ht'
    exact .inr ⟨q, hq, rfl⟩

/-- **What a run shows with blips, it shows without them**, only earlier. -/
theorem exists_clean (hp : p' <+: cycles c B n (spoilt items rest) done)
    (hend : EndsWithNews p') : ∃ p, p <+: cycles c B n (clean items rest) done ∧
      EndsWithNews p ∧ Delayed (blips items (repliesIn p')) p p' := by
  induction items generalizing n done p' with
  | nil => exact ⟨p', hp, hend, by rw [blips_nil]; exact .refl p'⟩
  | cons e items ih =>
    cases n with
    | zero =>
      obtain rfl := List.prefix_nil.mp hp
      exact ⟨[], List.nil_prefix, hend, .refl []⟩
    | succ n =>
      cases e with
      | own r =>
        rcases prefix_cons_iff.mp hp with (hp : p' <+: cycle c B r done) | ⟨left, q', hr, hq, rfl⟩
        · refine ⟨p', prefix_cons_iff.mpr (.inl hp), hend, ?_⟩
          rw [blips_of_oneCycle hp]
          exact .refl p'
        · obtain ⟨q, hq, hendq, hd⟩ := ih hq hend.of_append
          exact ⟨_, prefix_cons_iff.mpr (.inr ⟨left, q, hr, hq, rfl⟩),
            endsWithNews_cycle.append hendq, delayed_cycle hd⟩
      | blip detail =>
        rcases prefix_skipped hp hend with hp | ⟨q', hq, rfl⟩
        · have hnone : repliesIn p' = 0 := Nat.le_zero.mp hp.sublist.countP_le
          rw [hnone]
          exact ⟨p', hp.trans fetch_prefix, hend, .refl p'⟩
        · obtain ⟨q, hq, hendq, hd⟩ := ih hq hend.of_append
          exact ⟨q, hq.trans cycles_prefix_succ, hendq, delayed_skipped detail hd⟩

/-- **What a run shows without blips, it shows with them**, only later. -/
theorem exists_spoilt (hp : p <+: cycles c B n (clean items rest) done)
    (hend : EndsWithNews p) :
    ∃ p', p' <+: cycles c B (n + items.length) (spoilt items rest) done ∧
      EndsWithNews p' ∧ Delayed (blips items (repliesIn p')) p p' := by
  induction items generalizing n done p with
  | nil => exact ⟨p, hp, hend, by rw [blips_nil]; exact .refl p⟩
  | cons e items ih =>
    cases e with
    | own r =>
      cases n with
      | zero =>
        obtain rfl := List.prefix_nil.mp hp
        exact ⟨[], List.nil_prefix, hend, .refl []⟩
      | succ n =>
        rw [List.length_cons, Nat.add_right_comm]
        rcases prefix_cons_iff.mp hp with (hp : p <+: cycle c B r done) | ⟨left, q, hr, hq, rfl⟩
        · refine ⟨p, prefix_cons_iff.mpr (.inl hp), hend, ?_⟩
          rw [blips_of_oneCycle hp]
          exact .refl p
        · obtain ⟨q', hq, hendq, hd⟩ := ih hq hend.of_append
          refine ⟨_, prefix_cons_iff.mpr (.inr ⟨left, q', hr, ?_, rfl⟩),
            endsWithNews_cycle.append hendq, delayed_cycle hd⟩
          exact hq.trans cycles_prefix_succ
    | blip detail =>
      obtain ⟨q', hq, hendq, hd⟩ := ih (hp : p <+: cycles c B n (clean items rest) done) hend
      refine ⟨skipped detail ++ q', ?_, ?_, delayed_skipped detail hd⟩
      · exact prefix_cons_iff.mpr (.inr ⟨done, q', rfl, hq, rfl⟩)
      · exact EndsWithNews.append (l := skipped detail) (by rintro ev ⟨⟩; trivial) hendq

end Score

/-! ## Two runs in step -/

theorem alertsIn_dealings (h : List Event) : alertsIn (dealings h) = alertsIn h := by
  rw [alertsIn, alertsIn, dealings, List.filterMap_filterMap, List.filterMap_filterMap,
    List.filterMap_filter]
  apply List.filterMap_congr
  intro ev _
  cases ev with
  | call a => cases a <;> rfl
  | _ => rfl

theorem alertsIn_played (h : List Event) : alertsIn (played h) = alertsIn h := by
  rw [← alertsIn_dealings, dealings_played, alertsIn_dealings]

theorem Delayed.alerts {count : Nat} {h h' : List Event} (hd : Delayed count h h') :
    alertsIn h' = alertsIn h := by
  rw [← alertsIn_dealings, hd.dealings, alertsIn_dealings]

theorem EndsAtFatal.eq_of_prefix {s : Config.Engine} {h p : List Event} (he : EndsAtFatal s h)
    (hp : p <+: h) (ha : alertsIn p ≠ []) : p = h := by
  rcases he with hc | ⟨pre, ev, f, rfl, hc, hr⟩
  · exact absurd (alertsIn_of_calm fun ev hm => hc ev (hp.subset hm)) ha
  · rw [List.append_cons] at hp ⊢
    rcases List.prefix_concat_iff.mp hp with rfl | hp
    · rfl
    · have hnone : alertsIn (pre ++ [ev]) = [] := by
        rw [alertsIn_append, alertsIn_of_calm hc]
        cases hr <;> rfl
      have hle : alertsIn p <+: alertsIn (pre ++ [ev]) := (hp.filterMap _).filterMap _
      rw [hnone] at hle
      exact absurd (List.prefix_nil.mp hle) ha

theorem Trace.Last.failed_of_alert {c : Config} {h last : List Event} {count : Nat}
    (hl : Last c last) (hs : Splits c h count last) (ha : alertsIn h ≠ []) : Failed c last := by
  obtain ⟨before, rfl, hb⟩ := hs.before
  have hcalm : ¬ ∀ ev ∈ last, ev.Calm c.engine := by
    intro hc
    apply ha
    apply alertsIn_of_calm
    rw [List.forall_mem_append]
    exact ⟨fun ev hm => (hb ev hm).1, hc⟩
  cases hl with
  | nothing => simp at hcalm
  | underWay hu => exact absurd hu.calm hcalm
  | failed hf => exact hf
  | stopSeen =>
    exact absurd (List.forall_mem_singleton.mpr (calm_mark _ (.inr (.inr rfl)))) hcalm

namespace Engine

open Trace

variable {ω ω' ς ς' : Type}

def fetches (e : Engine ω ς) : Nat := e.actions.toList.count .fetchBalances

theorem fetches_eq (s : Setup ω ς) (w : ω) (σ : Schedule ω) (n : Nat) :
    ((fresh s w).after σ n).fetches = fetchesIn ((fresh s w).history σ n) := by
  rw [fetches, actions_after _ σ n rfl, List.count, List.countP_filterMap]
  apply List.countP_congr
  intro ev _
  cases ev with
  | call a => cases a <;> simp [Event.call?, Event.isFetch]
  | _ => simp [Event.call?, Event.isFetch]

theorem Step.counts {e e' : Engine ω ς} {evs : List Event} (st : Step e evs e') :
    endsIn evs = e'.cycles - e.cycles := by
  have hlearned : endsIn e.learned = 0 := by
    unfold learned
    split
    · split <;> rfl
    · split <;> rfl
    · split <;> rfl
    · rfl
  rw [← st.shown, endsIn_append, hlearned, news, endsIn_append, Nat.zero_add]
  have hcalls (l : List Action) : endsIn (l.map .call) = 0 := by
    simp [endsIn, List.countP_map, Function.comp_def, Event.isEnd]
  rw [hcalls, Nat.zero_add, endsIn, List.countP_replicate]
  rfl

theorem cycles_eq (s : Setup ω ς) (w : ω) (σ : Schedule ω) (n : Nat) :
    ((fresh s w).after σ n).cycles = endsIn ((fresh s w).history σ n) := by
  refine after_of_start (P := fun d h => d.cycles = endsIn h)
    (fun d m evs d' h hm hd => ?_) rfl σ n
  have hle : d.cycles ≤ d'.cycles := by
    rcases hm.cycles with hc | hc <;> omega
  have hends : endsIn evs = d'.cycles - d.cycles := by
    cases hm with
    | steps _ _ st => exact st.counts
    | claims | refused | asked | passes | changes | holds => simp [endsIn]
  rw [endsIn_append, hends, ← hd]
  omega

section

open Score

variable {c : Config} {B : Behaviour} {items : List Item} {rest : Script}
  {s : Setup ω ς} {w : ω} {σ : Schedule ω} {n : Nat}
  {s' : Setup ω' ς'} {w' : ω'} {σ' : Schedule ω'} {n' : Nat}

/-- At these moments the two runs have shown the same but for the cycles of the blips that the
second one has come to. -/
structure InStep (items : List Item) (e : Engine ω ς) (σ : Schedule ω) (n : Nat)
    (e' : Engine ω' ς') (σ' : Schedule ω') (n' : Nat) : Prop where
  dealings : dealings (e'.history σ' n') = dealings (e.history σ n)
  alerts : (e'.after σ' n').alerts = (e.after σ n).alerts
  fetches : (e'.after σ' n').fetches =
    (e.after σ n).fetches + blips items (repliesIn (e'.history σ' n'))
  cycles : (e'.after σ' n').cycles =
    (e.after σ n).cycles + blips items (repliesIn (e'.history σ' n'))

theorem InStep.of_delayed
    (hd : Delayed (blips items (repliesIn (played ((fresh s' w').history σ' n'))))
      (played ((fresh s w).history σ n)) (played ((fresh s' w').history σ' n'))) :
    InStep items (fresh s w) σ n (fresh s' w') σ' n' := by
  rw [repliesIn_played] at hd
  have hd := hd.of_played
  refine ⟨hd.dealings, ?_, ?_, ?_⟩
  · rw [alerts_eq, alerts_eq, hd.alerts]
  · rw [fetches_eq, fetches_eq, hd.fetches]
  · rw [cycles_eq, cycles_eq, hd.ends]

/-- How two runs go together of which the second one has network errors put into its replies. -/
structure BlipsUnseen (items : List Item) (e : Engine ω ς) (σ : Schedule ω)
    (e' : Engine ω' ς') (σ' : Schedule ω') : Prop where
  /-- Executions, their outcomes and alerts are the same, as far as both runs have come. -/
  agree : ∀ n n', dealings (e.history σ n) <+: dealings (e'.history σ' n') ∨
    dealings (e'.history σ' n') <+: dealings (e.history σ n)
  /-- When both have sent an alert, they are in step. -/
  ended : ∀ n n', (e.after σ n).alerts ≠ [] → (e'.after σ' n').alerts ≠ [] →
    InStep items e σ n e' σ' n'
  /-- On a fair schedule the second run comes to where the first one is. -/
  follows : e'.Fair σ' → (∃ k, (e'.after σ' k).phase.InLoop) → ∀ n,
    e'.FirstDeadlinesFit σ' ((e.after σ n).cycles + items.length) →
    ∃ n', InStep items e σ n e' σ' n'
  /-- And so does the first one come to where the second one is. -/
  leads : e.Fair σ → (∃ k, (e.after σ k).phase.InLoop) → ∀ n',
    e.FirstDeadlinesFit σ (e'.after σ' n').cycles → ∃ n, InStep items e σ n e' σ' n'

/-- **Network errors of the balance fetch are invisible** to strategies and to whoever receives the
alerts. Take any script of replies, and put in network errors anywhere: of two runs of one
configuration that watches its balance, one over each script, with the same behaviour of the
strategies and with no request to stop, each shows the executions, outcomes and alert of the other.
The run over the longer script has fetched the balances once more, and has completed one cycle more,
for each of the errors that it has come to. -/
theorem blips_unseen (hl : s.source.load = .ok c) (hl' : s'.source.load = .ok c)
    (hwatch : c.engine.WatchesBalance) (ha : (fresh s w).AnswersTo σ (clean items rest) B)
    (ha' : (fresh s' w').AnswersTo σ' (spoilt items rest) B)
    (hu : (fresh s w).Undisturbed σ) (hu' : (fresh s' w').Undisturbed σ') :
    BlipsUnseen items (fresh s w) σ (fresh s' w') σ' := by
  have hplays := plays_after hl hwatch ha hu
  have hplays' := plays_after hl' hwatch ha' hu'
  have hrest := endsWithNews_after (fresh s w) σ
  have hrest' := endsWithNews_after (fresh s' w') σ'
  -- Both runs play scores (`plays_after`). Taking the blips out of one score, or putting them into
  -- the other, turns what is played of one into a part of the other that differs by `Delayed`.
  constructor
  case agree =>
    intro n n'
    obtain ⟨_, -, hp⟩ := hplays n
    obtain ⟨_, -, hp'⟩ := hplays' n'
    obtain ⟨q, hq, -, hd⟩ := exists_clean hp'.le (hrest' n')
    rw [← dealings_played (history _ σ n), ← dealings_played (history _ σ' n'), hd.dealings]
    exact (comparable hp.le hq).imp (·.filter _) (·.filter _)
  case ended =>
    intro n n' hn hn'
    rw [alerts_eq, ← alertsIn_played] at hn hn'
    obtain ⟨last, hlast, hp⟩ := hplays n
    obtain ⟨_, -, hp'⟩ := hplays' n'
    obtain ⟨q, hq, -, hd⟩ := exists_clean hp'.le (hrest' n')
    -- The run without blips has failed, so that it has played all of its score.
    have hle := hq.trans (hp.whole (hlast.failed_of_alert hp.splits hn) _)
    have hends := Traced.endsAtFatal ⟨last, hp.splits, hlast⟩
    rw [hd.alerts] at hn'
    obtain rfl := hends.eq_of_prefix hle hn'
    exact .of_delayed hd
  case follows =>
    intro hf hk n hd
    obtain ⟨_, -, hp⟩ := hplays n
    obtain ⟨q, hq, hend, hdel⟩ := exists_spoilt hp.le (hrest n)
    rw [Nat.add_right_comm] at hq
    obtain ⟨n', rfl⟩ := exists_played hl' hwatch ha' hu' hf hk hd hq hend
    exact ⟨n', .of_delayed hdel⟩
  case leads =>
    intro hf hk n' hd
    obtain ⟨_, -, hp'⟩ := hplays' n'
    obtain ⟨q, hq, hend, hdel⟩ := exists_clean hp'.le (hrest' n')
    obtain ⟨n, rfl⟩ := exists_played hl hwatch ha hu hf hk hd hq hend
    exact ⟨n, .of_delayed hdel⟩

end

end Engine

namespace Rehearsed

/-- The replies of the rehearsed exchange; the first one is a blip. -/
def items : List Score.Item :=
  [.blip "connection timed out", .own (.ok { available := .ofList [("BTC", .one)] }),
    .own (.error (.error (.api "Invalid API key")))]

/-- What the exchange would reply after the run. -/
def silence : Script := Stream'.const (.ok {})

def allWell : Behaviour := fun _ => .ok ()

/-- The rehearsed world without the network error. -/
def clearWorld : Rehearsal := { world with balances := world.balances.tail }

theorem blips_rehearsed :
    let e := Engine.fresh setup clearWorld
    let e' := Engine.fresh setup world
    e.AnswersTo schedule (Score.clean items silence) allWell ∧
      e'.AnswersTo schedule (Score.spoilt items silence) allWell ∧
      e.Undisturbed schedule ∧ e'.Undisturbed schedule ∧
      Engine.InStep items e schedule 40 e' schedule 40 ∧
      ((e.after schedule 40).fetches = 2 ∧ (e'.after schedule 40).fetches = 3) ∧
      ∃ n', Engine.InStep items e schedule 8 e' schedule n' := by
  intro e e'
  have hidle : (e.after schedule 40).phase = .idle := Engine.isIdle_iff.mp (by decide +kernel)
  have hidle' : (e'.after schedule 40).phase = .idle := Engine.isIdle_iff.mp (by decide +kernel)
  have hl : (e.after schedule 40).lifecycle ≠ .notStarted := by decide +kernel
  have hl' : (e'.after schedule 40).lifecycle ≠ .notStarted := by decide +kernel
  have ha : e.AnswersTo schedule (Score.clean items silence) allWell :=
    Engine.answersTo_of_ended hidle hl (by decide +kernel)
  have ha' : e'.AnswersTo schedule (Score.spoilt items silence) allWell :=
    Engine.answersTo_of_ended hidle' hl' (by decide +kernel)
  have halert : (e.after schedule 40).alerts ≠ [] := by decide +kernel
  have halert' : (e'.after schedule 40).alerts ≠ [] := by decide +kernel
  have hu : e.Undisturbed schedule :=
    Engine.undisturbed_of_ended hidle hl (Engine.not_stopSeen_of_alert config_loads halert)
  have hu' : e'.Undisturbed schedule :=
    Engine.undisturbed_of_ended hidle' hl' (Engine.not_stopSeen_of_alert config_loads halert')
  have hfair : e'.Fair schedule :=
    Engine.fair_of_ended hidle' hl' (by decide +kernel) schedule_works
  have hfit : e'.DeadlinesFit schedule 40 := by
    unfold Engine.DeadlinesFit
    decide +kernel
  have hin : (e'.after schedule 4).phase.InLoop := by decide +kernel
  have hunseen := Engine.blips_unseen config_loads config_loads (by decide) ha ha' hu hu'
  refine ⟨ha, ha', hu, hu', hunseen.ended 40 40 halert halert', by decide +kernel, ?_⟩
  exact hunseen.follows hfair ⟨4, hin⟩ 8
    (Engine.firstDeadlinesFit_of_ended hidle' hl' hfit _)

end Rehearsed

end TradingBot
