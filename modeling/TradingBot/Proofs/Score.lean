import Mathlib.Data.Stream.Init
import TradingBot.Proofs.Stopping

/-!
# The score of a run

**Replies** (`Answers`). An exchange that replies to the fetches of balances from a script, and
strategies whose executions come to what their behaviour gives for all executions so far.

**The score** (`Score.cycles`). What a run shows in its first cycles, put down from a script and a
behaviour alone: a reply that lets the strategies be executed, up to the first execution that is
fatal; a network error; or a fatal reply.

**A run plays its score** (`Engine.plays_after`, `Engine.exists_played`). As long as the loop sees
no request to stop, a run shows nothing but the beginning of its score. On a fair schedule it comes
to every place in it.
-/

namespace TradingBot

/-- What an exchange replies to one fetch of balances after the other. -/
abbrev Script := Stream' (Except Fault Balances)

/-- What an execution comes to, by the markets of all executions up to this one. -/
abbrev Behaviour := List String → Except StrategyFault Unit

/-- The replies among the events are the script's, and the behaviour's after the executions in
`done`. -/
def Answers (B : Behaviour) : Script → List String → List Event → Prop
  | _, _, [] => True
  | s, done, .balances r :: h => r = s.head ∧ Answers B s.tail done h
  | s, done, .executed id r :: h => r = B (done ++ [id]) ∧ Answers B s (done ++ [id]) h
  | s, done, .began :: h | s, done, .ended :: h | s, done, .stopSeen :: h | s, done, .call _ :: h =>
    Answers B s done h

instance decidableAnswers (B : Behaviour) :
    ∀ (s : Script) (done : List String) (h : List Event), Decidable (Answers B s done h)
  | _, _, [] => .isTrue trivial
  | s, done, .balances r :: h =>
    have := decidableAnswers B s.tail done h
    inferInstanceAs (Decidable (r = s.head ∧ Answers B s.tail done h))
  | s, done, .executed id r :: h =>
    have := decidableAnswers B s (done ++ [id]) h
    inferInstanceAs (Decidable (r = B (done ++ [id]) ∧ Answers B s (done ++ [id]) h))
  | s, done, .began :: h | s, done, .ended :: h | s, done, .stopSeen :: h | s, done, .call _ :: h =>
    decidableAnswers B s done h

theorem Answers.of_append {B : Behaviour} {s : Script} {done : List String} {h h' : List Event}
    (ha : Answers B s done (h ++ h')) : Answers B s done h := by
  induction h generalizing s done with
  | nil => trivial
  | cons ev h ih =>
    cases ev with
    | balances | executed => exact ⟨ha.1, ih ha.2⟩
    | began | ended | stopSeen | call => exact ih ha

namespace Score

open Trace

/-! ## The score -/

variable (c : Config) (B : Behaviour)

/-- Executions on these markets up to a fatal one, and if there is none, the end of the cycle and
all executions by then. -/
def perform : List String → List String → List Event × Option (List String)
  | done, [] => ([.ended], some done)
  | done, id :: left =>
    match B (done ++ [id]) with
    | .ok () =>
      let rest := perform (done ++ [id]) left
      (.call (.execute id) :: .executed id (.ok ()) :: rest.1, rest.2)
    | .error fault =>
      ([.call (.execute id), .executed id (.error fault), .alertOf (Engine.fatalOf fault)], none)

/-- What comes of a reply to the fetch of balances. -/
def react (r : Except Fault Balances) (done : List String) : List Event × Option (List String) :=
  match BalanceCheck.judge c.engine.stopCurrency c.engine.stopBalance r with
  | .passed _ => perform B done c.marketIds
  | .unavailable _ => ([.ended], some done)
  | .fatal f => ([.alertOf f], none)

/-- The cycle in which the exchange gives a reply. -/
def cycle (r : Except Fault Balances) (done : List String) : List Event :=
  [.began, .call .fetchBalances, .balances r] ++ (react c B r done).1

def cycles : Nat → Script → List String → List Event
  | 0, _, _ => []
  | n + 1, s, done =>
    cycle c B s.head done ++ (react c B s.head done).2.elim [] (cycles n s.tail)

variable {c B} {n m : Nat} {s : Script} {done ids left : List String} {h l p q : List Event}
  {r : Except Fault Balances} {f : Fatal}

theorem cycles_of_some (hr : (react c B s.head done).2 = some left) :
    cycles c B (n + 1) s done = cycle c B s.head done ++ cycles c B n s.tail left := by
  rw [cycles, hr]
  rfl

theorem cycles_of_none (hr : (react c B s.head done).2 = none) :
    cycles c B (n + 1) s done = cycle c B s.head done := by
  rw [cycles, hr]
  exact List.append_nil _

theorem cycle_prefix : cycle c B s.head done <+: cycles c B (n + 1) s done :=
  List.prefix_append _ _

theorem cycles_prefix_succ : cycles c B n s done <+: cycles c B (n + 1) s done := by
  induction n generalizing s done with
  | zero => exact List.nil_prefix
  | succ n ih =>
    cases hr : (react c B s.head done).2 with
    | none => simp [cycles_of_none hr]
    | some left =>
      rw [cycles_of_some hr, cycles_of_some hr]
      exact (List.prefix_append_right_inj _).mpr ih

theorem cycles_mono (hnm : n ≤ m) : cycles c B n s done <+: cycles c B m s done := by
  induction m, hnm using Nat.le_induction with
  | base => exact List.prefix_refl _
  | succ m _ ih => exact ih.trans cycles_prefix_succ

theorem comparable (hp : p <+: cycles c B n s done) (hq : q <+: cycles c B m s done) :
    p <+: q ∨ q <+: p :=
  List.prefix_or_prefix_of_prefix (hp.trans (cycles_mono (Nat.le_max_left n m)))
    (hq.trans (cycles_mono (Nat.le_max_right n m)))

/-! ## Runs that answer to a score -/

theorem judge_of_suffices {e : Config.Engine} {b : Balances} (hb : e.Suffices b) :
    ∃ amount, BalanceCheck.judge e.stopCurrency e.stopBalance (.ok b) = .passed amount := by
  obtain ⟨amount, ha, hle⟩ := hb
  have hlt : ¬ amount < e.stopBalance := Decimal.not_lt.mpr (Decimal.le_iff_value_le.mpr hle)
  exact ⟨amount, by simp [BalanceCheck.judge, BalanceCheck.compare, ha, hlt]⟩

theorem judge_of_raises {e : Config.Engine} (hr : Event.Raises e (.balances r) f) :
    BalanceCheck.judge e.stopCurrency e.stopBalance r = .fatal f := by
  cases hr with
  | api | brokenFetch => rfl
  | missing ha => simp [BalanceCheck.judge, BalanceCheck.compare, ha]
  | tooLow ha hlt =>
    simp [BalanceCheck.judge, BalanceCheck.compare, ha, Decimal.lt_iff_value_lt.mpr hlt]

theorem fault_of_raises {e : Config.Engine} {id : String} {r : Except StrategyFault Unit}
    (hr : Event.Raises e (.executed id r) f) :
    ∃ fault, r = .error fault ∧ f = Engine.fatalOf fault := by
  cases hr with
  | failure | unexpected | brokenExecute => exact ⟨_, rfl, rfl⟩

/-- Executions that were all well are the beginning of what was to be performed. -/
theorem perform_executions (ha : Answers B s done (executions ids ++ h)) :
    Answers B s (done ++ ids) h ∧ ∀ left, perform B done (ids ++ left) =
      (executions ids ++ (perform B (done ++ ids) left).1, (perform B (done ++ ids) left).2) := by
  induction ids generalizing done with
  | nil =>
    rw [List.append_nil]
    exact ⟨ha, fun left => rfl⟩
  | cons id ids ih =>
    obtain ⟨hok, ha⟩ := ha
    obtain ⟨ha, hperform⟩ := ih ha
    rw [List.append_cons]
    refine ⟨ha, fun left => ?_⟩
    rw [List.cons_append, perform, ← hok]
    simp only [hperform]
    rfl

/-- Once the balances have passed the check and some strategies were executed well, the others are
next. -/
theorem react_of_executions {gate : List Event} (hw : c.engine.WatchesBalance)
    (hg : Clears c.engine gate) (hids : ids ++ left = c.marketIds)
    (ha : Answers B s done (.began :: gate ++ executions ids ++ h)) :
    gate = [.call .fetchBalances, .balances s.head] ∧ Answers B s.tail (done ++ ids) h ∧
      react c B s.head done =
        (executions ids ++ (perform B (done ++ ids) left).1, (perform B (done ++ ids) left).2) := by
  cases hg with
  | unwatched hn => exact absurd hw hn
  | sufficient _ hb =>
    obtain ⟨amount, hj⟩ := judge_of_suffices hb
    rw [List.append_assoc] at ha
    obtain ⟨hr, ha⟩ := ha
    obtain ⟨ha, hperform⟩ := perform_executions ha
    refine ⟨by rw [hr], ha, ?_⟩
    rw [react, ← hr, hj, ← hids]
    exact hperform left

/-- A completed cycle is the one that the score has next. -/
theorem cycle_of_completed (hw : c.engine.WatchesBalance) (hc : Completed c l)
    (ha : Answers B s done (l ++ h)) : cycle c B s.head done = l ∧
      ∃ done', (react c B s.head done).2 = some done' ∧ Answers B s.tail done' h := by
  cases hc with
  | executed hg =>
    rw [List.append_assoc] at ha
    obtain ⟨rfl, ha, hr⟩ := react_of_executions hw hg (List.append_nil _) ha
    rw [cycle, hr]
    exact ⟨by simp [perform], _, rfl, ha⟩
  | skipped detail =>
    obtain ⟨hr, ha⟩ := ha
    rw [cycle, ← hr]
    exact ⟨rfl, _, rfl, ha⟩

theorem prefix_of_underWay (hw : c.engine.WatchesBalance) (hu : UnderWay c l)
    (ha : Answers B s done l) : l <+: cycle c B s.head done := by
  cases hu with
  | fetching => exact ⟨[.balances s.head] ++ (react c B s.head done).1, rfl⟩
  | @executing gate ids left id hg hids =>
    obtain ⟨rfl, -, hr⟩ := react_of_executions hw hg hids ha
    have hcall : [.call (.execute id)] <+: (perform B (done ++ ids) (id :: left)).1 := by
      rw [perform]
      split <;> exact ⟨_, rfl⟩
    rw [cycle, hr]
    simpa using hcall

/-- A cycle that failed is all that the score has left. -/
theorem cycle_of_failed (hw : c.engine.WatchesBalance) (hf : Failed c l)
    (ha : Answers B s done l) : cycle c B s.head done = l ∧ (react c B s.head done).2 = none := by
  cases hf with
  | fetch _ hr =>
    obtain ⟨hs, -⟩ := ha
    rw [cycle, react, ← hs, judge_of_raises hr]
    exact ⟨rfl, rfl⟩
  | @execute gate ids left id r f hg hids hf =>
    obtain ⟨rfl, ⟨hout, -⟩, hr⟩ := react_of_executions hw hg hids ha
    obtain ⟨fault, rfl, rfl⟩ := fault_of_raises hf
    rw [cycle, hr, perform, ← hout]
    exact ⟨by simp, rfl⟩

/-- Completed cycles take so many cycles off the score. -/
theorem cycles_of_completed {ls : List (List Event)} (hw : c.engine.WatchesBalance)
    (hc : ∀ l ∈ ls, Completed c l) (ha : Answers B s done (ls.flatten ++ h)) :
    ∃ s' done', Answers B s' done' h ∧
      ∀ n, cycles c B (ls.length + n) s done = ls.flatten ++ cycles c B n s' done' := by
  induction ls generalizing s done with
  | nil => exact ⟨s, done, ha, fun n => by simp⟩
  | cons l ls ih =>
    rw [List.flatten_cons, List.append_assoc] at ha
    obtain ⟨hl, done₁, hr, ha⟩ := cycle_of_completed hw (hc l List.mem_cons_self) ha
    obtain ⟨s', done', ha, hn⟩ := ih (fun l hl => hc l (List.mem_cons_of_mem _ hl)) ha
    refine ⟨s', done', ha, fun n => ?_⟩
    rw [List.length_cons, Nat.add_right_comm, cycles_of_some hr, hn, hl, List.flatten_cons,
      List.append_assoc]

/-! ## The events of a score -/

/-- The event can follow the check of balances. -/
def AfterCheck : Event → Prop
  | .ended | .executed _ _ | .call (.execute _) | .call (.alert _ _) => True
  | .began | .stopSeen | .balances _ | .call .initExchange | .call (.initStrategy _ _)
  | .call .fetchBalances => False

theorem afterCheck_perform : ∀ ev ∈ (perform B done ids).1, AfterCheck ev := by
  induction ids generalizing done with
  | nil => exact List.forall_mem_singleton.mpr trivial
  | cons id ids ih =>
    rw [perform]
    split
    · simpa [AfterCheck] using ih
    · simp [AfterCheck, Event.alertOf]

theorem afterCheck_react : ∀ ev ∈ (react c B r done).1, AfterCheck ev := by
  rw [react]
  split
  · exact afterCheck_perform
  · exact List.forall_mem_singleton.mpr trivial
  · exact List.forall_mem_singleton.mpr trivial

theorem not_isInit_cycle : ∀ ev ∈ cycle c B r done, ¬ ev.IsInit := by
  intro ev hm
  rcases List.mem_append.mp hm with hm | hm
  · simp only [List.mem_cons, List.not_mem_nil, or_false] at hm
    rcases hm with rfl | rfl | rfl <;> exact id
  · have hev := afterCheck_react ev hm
    rintro hi
    cases ev with
    | call a => cases a <;> first | exact hev | exact hi
    | began | ended | stopSeen | balances | executed => exact hi

theorem not_isInit_cycles : ∀ ev ∈ cycles c B n s done, ¬ ev.IsInit := by
  induction n generalizing s done with
  | zero => exact List.forall_mem_nil _
  | succ n ih =>
    cases hr : (react c B s.head done).2 with
    | none =>
      rw [cycles_of_none hr]
      exact not_isInit_cycle
    | some left =>
      rw [cycles_of_some hr]
      exact List.forall_mem_append.mpr ⟨not_isInit_cycle, ih⟩

end Score

/-! ## What a run has played -/

instance : DecidablePred Event.IsInit
  | .call .initExchange | .call (.initStrategy _ _) => .isTrue trivial
  | .call .fetchBalances | .call (.execute _) | .call (.alert _ _) => .isFalse id
  | .began | .ended | .stopSeen | .balances _ | .executed _ _ => .isFalse id

/-- The events but for the calls that put the run together. -/
def played (h : List Event) : List Event := h.filter fun ev => ¬ ev.IsInit

theorem played_append (h h' : List Event) : played (h ++ h') = played h ++ played h' :=
  List.filter_append _ _

theorem played_of_isInit {h : List Event} (hi : ∀ ev ∈ h, ev.IsInit) : played h = [] := by
  simpa [played] using hi

theorem played_of_not_isInit {h : List Event} (hi : ∀ ev ∈ h, ¬ ev.IsInit) : played h = h := by
  simpa [played] using hi

theorem Answers.of_isInit {B : Behaviour} {s : Script} {done : List String}
    {opening h : List Event} (hi : ∀ ev ∈ opening, ev.IsInit)
    (ha : Answers B s done (opening ++ h)) : Answers B s done h := by
  induction opening with
  | nil => exact ha
  | cons ev opening ih =>
    rw [List.forall_mem_cons] at hi
    cases ev with
    | call a => exact ih hi.2 ha
    | began | ended | stopSeen | balances | executed => exact hi.1.elim

/-- What a run has played that has completed so many cycles, up to its last part. -/
structure Plays (c : Config) (B : Behaviour) (s : Script) (count : Nat) (last p : List Event) :
    Prop where
  splits : Trace.Splits c p count last
  /-- It is a beginning of the score. -/
  le : p <+: Score.cycles c B (count + 1) s []
  /-- All completed cycles of the score are in it. -/
  ge : Score.cycles c B count s [] <+: p
  /-- After a fatal reply it is all that there is. -/
  whole : Trace.Failed c last → ∀ n, Score.cycles c B n s [] <+: p

open Trace Score in
/-- **A run that answers to a script and a behaviour plays their score.** -/
theorem Trace.Splits.plays {c : Config} {B : Behaviour} {s : Script} {h last : List Event}
    {count : Nat} (hs : Splits c h count last) (hl : Last c last) (hw : c.engine.WatchesBalance)
    (ha : Answers B s [] h) (hu : .stopSeen ∉ h) : Plays c B s count last (played h) := by
  obtain ⟨opening, ls, rfl, ho, hc, rfl⟩ := hs
  rw [List.append_assoc] at ha hu ⊢
  obtain ⟨s', done', ha, hn⟩ := cycles_of_completed hw hc (ha.of_isInit ho)
  -- The completed cycles are those of the score, one by one. What comes after them begins the next
  -- one, and a failed cycle is the whole of it.
  have hle : last <+: cycles c B 1 s' done' := by
    cases hl with
    | nothing => exact List.nil_prefix
    | underWay hu => exact (prefix_of_underWay hw hu ha).trans cycle_prefix
    | failed hf =>
      rw [← (cycle_of_failed hw hf ha).1]
      exact cycle_prefix
    | stopSeen => simp at hu
  have hle : ls.flatten ++ last <+: cycles c B (ls.length + 1) s [] := by
    rw [hn]
    exact (List.prefix_append_right_inj _).mpr hle
  have hplayed : played (opening ++ (ls.flatten ++ last)) = ls.flatten ++ last := by
    rw [played_append, played_of_isInit ho, List.nil_append]
    exact played_of_not_isInit fun ev hm => not_isInit_cycles ev (hle.subset hm)
  rw [hplayed]
  refine ⟨⟨[], ls, by simp, List.forall_mem_nil _, hc, rfl⟩, hle, ?_, fun hf n => ?_⟩
  · have h0 := hn 0
    rw [Nat.add_zero, cycles, List.append_nil] at h0
    rw [h0]
    exact List.prefix_append _ _
  · have hmore : cycles c B n s' done' <+: last := by
      obtain ⟨hcycle, hr⟩ := cycle_of_failed hw hf ha
      cases n with
      | zero => exact List.nil_prefix
      | succ n => simp [cycles_of_none hr, hcycle]
    refine (cycles_mono (Nat.le_add_left n ls.length)).trans ?_
    rw [hn]
    exact (List.prefix_append_right_inj _).mpr hmore

/-! ## One piece of news at a time -/

/-- A call or a mark, but for the mark of a cycle's beginning. -/
def Event.IsNews : Event → Prop
  | .call _ | .ended | .stopSeen => True
  | .began | .balances _ | .executed _ _ => False

/-- There is no news but at the end, and there it is. -/
def OneNews (l : List Event) : Prop :=
  ∃ quiet ev, l = quiet ++ [ev] ∧ ev.IsNews ∧ ∀ x ∈ quiet, ¬ x.IsNews

/-- It ends with news, if it is not empty. -/
def EndsWithNews (l : List Event) : Prop := ∀ ev ∈ l.getLast?, ev.IsNews

theorem EndsWithNews.append {l l' : List Event} (h : EndsWithNews l) (h' : EndsWithNews l') :
    EndsWithNews (l ++ l') := by
  cases l' with
  | nil => rwa [List.append_nil]
  | cons ev l' => simpa [EndsWithNews, List.getLast?_append, List.getLast?_cons] using h'

theorem EndsWithNews.of_append {l l' : List Event} (h : EndsWithNews (l ++ l')) :
    EndsWithNews l' := by
  cases l' with
  | nil => simp [EndsWithNews]
  | cons ev l' => simpa [EndsWithNews, List.getLast?_append, List.getLast?_cons] using h

theorem OneNews.endsWithNews {l : List Event} (h : OneNews l) : EndsWithNews l := by
  obtain ⟨quiet, ev, rfl, hev, -⟩ := h
  simpa [EndsWithNews] using hev

theorem OneNews.eq_of_prefix {l t : List Event} (h : OneNews l) (ht : t <+: l) (hne : t ≠ [])
    (hend : EndsWithNews t) : t = l := by
  obtain ⟨quiet, ev, rfl, hev, hq⟩ := h
  rcases List.prefix_concat_iff.mp ht with rfl | ht
  · rfl
  · have hlast := hend _ (List.getLast?_eq_some_getLast hne)
    exact absurd hlast (hq _ (ht.subset (List.getLast_mem hne)))

namespace Engine

open Trace

variable {ω ς : Type} {e e' : Engine ω ς} {m : Move ω} {evs p : List Event} {run : Run ω ς}
  {c : Config} {s : Setup ω ς} {w : ω} {σ : Schedule ω} {n k : Nat}

theorem Dispatches.oneNews {d : Engine ω ς} {finished left : List (Wired ω ς)}
    (h : Dispatches d run finished left evs e') {ev : Event} (hn : ¬ ev.IsNews)
    (hi : ¬ ev.IsInit) : OneNews (played (ev :: evs)) := by
  have hnews : OneNews (ev :: evs) ∧ ∀ x ∈ ev :: evs, ¬ x.IsInit := by
    cases h with
    | ends | executes =>
      refine ⟨⟨[ev], _, rfl, trivial, List.forall_mem_singleton.mpr hn⟩, ?_⟩
      exact List.forall_mem_cons.mpr ⟨hi, List.forall_mem_singleton.mpr id⟩
  rw [played_of_not_isInit hnews.2]
  exact hnews.1

theorem Wires.played {d : Engine ω ς} {config : Config} {x : Exchange ω}
    {ready : List (Wired ω ς)} {left : List Config.Market}
    (h : Wires d config x ready left evs e') : played evs = [] := by
  cases h <;> rfl

theorem Follows.oneNews (hm : Follows e m evs e') : played evs = [] ∨ OneNews (played evs) := by
  cases hm with
  | claims | refused | asked | passes | changes | holds => exact .inl rfl
  | steps _ _ st =>
    cases st with
    | setsUp _ _ hw | strategyReady _ _ hw => exact .inl hw.played
    | seesStop => exact .inr ⟨[], _, rfl, trivial, by simp⟩
    | fetches | skips | fetchIsFatal | executeIsFatal =>
      exact .inr ⟨[_], _, rfl, trivial, List.forall_mem_singleton.mpr id⟩
    | begins _ _ _ hd | passes _ _ _ _ hd | executes _ _ hd => exact .inr (hd.oneNews id id)
    | _ => exact .inl rfl

theorem endsWithNews_after (e : Engine ω ς) (σ : Schedule ω) (n : Nat) :
    EndsWithNews (played (e.history σ n)) := by
  induction n with
  | zero => exact nofun
  | succ n ih =>
    rw [history, played_append]
    rcases (move_follows (e.after σ n) (σ n)).oneNews with hnil | hone
    · rwa [hnil, List.append_nil]
    · exact ih.append hone.endsWithNews

/-- A run that has played more than `p` has played exactly `p` before. -/
theorem exists_played_eq {e : Engine ω ς} (hp : ∃ n, p <+: played (e.history σ n))
    (hend : EndsWithNews p) : ∃ n, played (e.history σ n) = p := by
  obtain ⟨n, hn, hfirst⟩ := exists_first hp
  cases n with
  | zero => exact ⟨0, (List.prefix_nil.mp hn).symm⟩
  | succ n =>
    have hnot := hfirst n (Nat.lt_succ_self n)
    rw [history, played_append] at hn
    obtain ⟨t, rfl⟩ : played (e.history σ n) <+: p :=
      (List.prefix_or_prefix_of_prefix hn (List.prefix_append _ _)).resolve_left hnot
    have ht := (List.prefix_append_right_inj _).mp hn
    have hne : t ≠ [] := by
      rintro rfl
      exact hnot (by simp)
    refine ⟨n + 1, ?_⟩
    rw [history, played_append]
    rcases (move_follows (e.after σ n) (σ n)).oneNews with hnil | hone
    · rw [hnil] at ht
      exact absurd (List.prefix_nil.mp ht) hne
    · rw [hone.eq_of_prefix ht hne hend.of_append]

/-! ## A run comes on -/

/-- The loop never sees a request to stop. -/
def Undisturbed (e : Engine ω ς) (σ : Schedule ω) : Prop := ∀ n, .stopSeen ∉ e.history σ n

/-- The clock can show the ends of the pauses after the first so many cycles. -/
def FirstDeadlinesFit (e : Engine ω ς) (σ : Schedule ω) (count : Nat) : Prop :=
  ∀ n, (e.after σ (n + 1)).cycles = (e.after σ n).cycles + 1 → (e.after σ n).cycles < count →
    (e.after σ n).CanShow e.interval

theorem checking_of_pausing {deadline : Nat} (hf : (fresh s w).Fair σ)
    (hp : ((fresh s w).after σ n).phase = .pausing run deadline) :
    ∃ m, ((fresh s w).after σ m).phase = .checking run ∧
      ((fresh s w).after σ m).cycles = ((fresh s w).after σ n).cycles := by
  induction hleft : deadline - ((fresh s w).after σ n).wake using Nat.strong_induction_on
    generalizing n with
  | _ left ih =>
    obtain ⟨m, -, hturn, hw, st, -, -⟩ := next_move_after (n := n) hf (by simp [hp])
    have hawake : ((fresh s w).after σ m).wake ≤ ((fresh s w).after σ m).now := by
      simpa [isAsleep] using hturn.2
    rcases (st.of_pausing (hw.phase.trans hp)).2 with ⟨-, hlt, he⟩ | ⟨-, lines, he⟩
    · obtain ⟨hlater, hle⟩ := tick_lt hawake hlt
      have hless : deadline - ((fresh s w).after σ (m + 1)).wake < left := by
        rw [he, ← hleft, ← hw.wake]
        exact Nat.sub_lt_sub_left (hlater.trans_le hle) hlater
      obtain ⟨k, hk, hcyc⟩ := ih _ hless (by rw [he]; exact hw.phase.trans hp) rfl
      refine ⟨k, hk, hcyc.trans ?_⟩
      rw [he]
      exact hw.cycles
    · refine ⟨m + 1, by rw [he], ?_⟩
      rw [he]
      exact hw.cycles

theorem Dispatches.begins {d : Engine ω ς} {finished left : List (Wired ω ς)}
    (h : Dispatches d run finished left evs e') :
    (e'.phase.InCycle ∧ e'.cycles = d.cycles) ∨ e'.cycles = d.cycles + 1 := by
  cases h with
  | ends hr => cases hr <;> exact .inr rfl
  | executes => exact .inl ⟨trivial, rfl⟩

/-- A move at the top of the loop that sees no request to stop comes to the middle of a cycle, or it
ends one in which there is nothing to do. -/
theorem Step.begins_of_checking (st : Step e evs e') (hp : e.phase = .checking run)
    (hs : .stopSeen ∉ evs) : (e'.phase.InCycle ∧ e'.cycles = e.cycles) ∨
      e'.cycles = e.cycles + 1 := by
  cases st with
  | waits hsus hp' =>
    rw [hp] at hp'
    cases hsus <;> cases hp'
  | seesStop => exact absurd (List.mem_singleton_self _) hs
  | fetches => exact .inl ⟨trivial, rfl⟩
  | begins _ _ _ hd => exact hd.begins
  | _ => simp_all

/-- In its loop, a run comes to the middle of a cycle, or to the end of one in which there is
nothing to do. -/
theorem begins_of_inLoop (hf : (fresh s w).Fair σ) (hu : (fresh s w).Undisturbed σ)
    (hp : ((fresh s w).after σ n).phase.InLoop) :
    ∃ m, ((fresh s w).after σ m).cycles = ((fresh s w).after σ n).cycles ∧
      (((fresh s w).after σ m).phase.InCycle ∨
        ((fresh s w).after σ (m + 1)).cycles = ((fresh s w).after σ m).cycles + 1) := by
  have htop {n : Nat} {run : Run ω ς} (hp : ((fresh s w).after σ n).phase = .checking run) :
      ∃ m, ((fresh s w).after σ m).cycles = ((fresh s w).after σ n).cycles ∧
        (((fresh s w).after σ m).phase.InCycle ∨
          ((fresh s w).after σ (m + 1)).cycles = ((fresh s w).after σ m).cycles + 1) := by
    obtain ⟨m, -, -, hw, st, -, -⟩ := next_move_after (n := n) hf (by simp [hp])
    have hno : .stopSeen ∉ ((fresh s w).after σ m).showing (σ m) :=
      fun hm => hu (m + 1) (List.mem_append_right _ hm)
    rcases st.begins_of_checking (hw.phase.trans hp) hno with ⟨hc, hcyc⟩ | hcyc
    · exact ⟨m + 1, hcyc.trans hw.cycles, .inl hc⟩
    · exact ⟨m, hw.cycles, .inr hcyc⟩
  match h : ((fresh s w).after σ n).phase with
  | .checking run => exact htop h
  | .pausing run deadline =>
    obtain ⟨m, hm, hcyc⟩ := checking_of_pausing hf h
    obtain ⟨k, hcyc', hk⟩ := htop hm
    exact ⟨k, hcyc'.trans hcyc, hk⟩
  | .fetching _ _ | .executing _ _ _ _ _ => exact ⟨n, rfl, .inl (by rw [h]; trivial)⟩
  | .idle | .loading | .settingUp _ _ _ | .wiring _ _ _ _ _ _ | .alerting _ | .leaving _ =>
    rw [h] at hp
    exact hp.elim

def HasFailed (c : Config) (e : Engine ω ς) (h : List Event) : Prop :=
  ∃ last, Splits c h e.cycles last ∧ Failed c last

theorem cycle_comes (hl : s.source.load = .ok c) (hf : (fresh s w).Fair σ)
    (hu : (fresh s w).Undisturbed σ) (hp : ((fresh s w).after σ n).phase.InLoop) :
    ∃ m, ((fresh s w).after σ m).cycles = ((fresh s w).after σ n).cycles ∧
      (((fresh s w).after σ (m + 1)).cycles = ((fresh s w).after σ m).cycles + 1 ∨
        HasFailed c ((fresh s w).after σ (m + 1)) ((fresh s w).history σ (m + 1))) := by
  obtain ⟨k, hcyc, hc | hend⟩ := begins_of_inLoop hf hu hp
  · obtain ⟨l, hsplit, hstory⟩ := (told_after hl w σ k).fitting
    obtain ⟨m, rest, -, -, hh, hcycm, hend⟩ := cycle_ends hf hc hstory
    refine ⟨m, hcycm.trans hcyc, ?_⟩
    cases hend with
    | completed _ hnum => exact .inl (hnum.trans (congrArg (· + 1) hcycm.symm))
    | failed hfail _ hnum =>
      refine .inr ⟨_, ?_, hfail⟩
      rw [hh, hnum]
      exact hsplit.extends rest
  · exact ⟨k, hcyc, .inl hend⟩

/-- **A run that is not disturbed comes to the end of every cycle**, or to a fatal reply, as long as
the clock can show its deadlines. -/
theorem exists_cycles (hl : s.source.load = .ok c) (hf : (fresh s w).Fair σ)
    (hu : (fresh s w).Undisturbed σ) (hk : ((fresh s w).after σ k).phase.InLoop) {count : Nat}
    (hd : (fresh s w).FirstDeadlinesFit σ count) :
    ∃ n, count < ((fresh s w).after σ n).cycles ∨
      HasFailed c ((fresh s w).after σ n) ((fresh s w).history σ n) := by
  induction hleft : count - ((fresh s w).after σ k).cycles using Nat.strong_induction_on
    generalizing k with
  | _ left ih =>
    obtain ⟨m, hcyc, hend | hfail⟩ := cycle_comes hl hf hu hk
    · by_cases hlt : count < ((fresh s w).after σ (m + 1)).cycles
      · exact ⟨m + 1, .inl hlt⟩
      · have hint := interval_congr (setup_after (fresh s w) σ m)
        have hfit := hd m hend (by omega)
        obtain ⟨-, -, st⟩ := (move_follows ((fresh s w).after σ m) (σ m)).of_cycle_end hend
        obtain ⟨run, hp⟩ := st.pauses_on hend (settled_after s w σ m) (by rwa [hint])
        have hloop : ((fresh s w).after σ (m + 1)).phase.InLoop := by
          rw [after, hp]
          trivial
        exact ih _ (by omega) hloop rfl
    · exact ⟨m + 1, .inr hfail⟩

/-! ## A run and its score -/

/-- The components reply from a script and a behaviour. -/
def AnswersTo (e : Engine ω ς) (σ : Schedule ω) (s : Script) (B : Behaviour) : Prop :=
  ∀ n, Answers B s [] (e.history σ n)

/-- A run that has come to its end has shown all that it will ever show. -/
theorem history_of_ended {e : Engine ω ς} (hi : (e.after σ n).phase = .idle)
    (hl : (e.after σ n).lifecycle ≠ .notStarted) (m : Nat) :
    ∃ later, e.history σ n = e.history σ m ++ later := by
  rcases Nat.le_total m n with hmn | hnm
  · exact history_le e σ hmn
  · exact ⟨[], by rw [(ended_after hi hl hnm).2, List.append_nil]⟩

theorem not_stopSeen_of_alert (hl : s.source.load = .ok c)
    (ha : ((fresh s w).after σ n).alerts ≠ []) : .stopSeen ∉ (fresh s w).history σ n := by
  intro hm
  rw [alerts_eq] at ha
  exact ha (alertsIn_of_calm (calm_of_stopSeen (told_after hl w σ n).fitting.traced hm))

theorem undisturbed_of_ended {e : Engine ω ς} (hi : (e.after σ n).phase = .idle)
    (hl : (e.after σ n).lifecycle ≠ .notStarted) (hu : .stopSeen ∉ e.history σ n) :
    e.Undisturbed σ := by
  intro m hm
  obtain ⟨later, hh⟩ := history_of_ended hi hl m
  exact hu (hh ▸ List.mem_append_left later hm)

theorem firstDeadlinesFit_of_ended {e : Engine ω ς} (hi : (e.after σ n).phase = .idle)
    (hl : (e.after σ n).lifecycle ≠ .notStarted) (hd : e.DeadlinesFit σ n) (count : Nat) :
    e.FirstDeadlinesFit σ count := by
  intro m hcyc _
  rcases Nat.lt_or_ge m n with hmn | hnm
  · exact hd m hmn hcyc
  · obtain ⟨hw, -⟩ := ended_after hi hl hnm
    obtain ⟨hw', -⟩ := ended_after hi hl (Nat.le_succ_of_le hnm)
    rw [hw.cycles, hw'.cycles] at hcyc
    exact absurd hcyc.symm (Nat.succ_ne_self _)

section

variable {S : Script} {B : Behaviour}

theorem answersTo_of_ended {e : Engine ω ς} (hi : (e.after σ n).phase = .idle)
    (hl : (e.after σ n).lifecycle ≠ .notStarted) (ha : Answers B S [] (e.history σ n)) :
    e.AnswersTo σ S B := by
  intro m
  obtain ⟨later, hh⟩ := history_of_ended hi hl m
  rw [hh] at ha
  exact ha.of_append

theorem plays_after (hl : s.source.load = .ok c) (hwatch : c.engine.WatchesBalance)
    (ha : (fresh s w).AnswersTo σ S B) (hu : (fresh s w).Undisturbed σ) (n : Nat) :
    ∃ last, Last c last ∧
      Plays c B S ((fresh s w).after σ n).cycles last (played ((fresh s w).history σ n)) := by
  obtain ⟨last, hs, hlast⟩ := (told_after hl w σ n).fitting.traced
  exact ⟨last, hlast, hs.plays hlast hwatch (ha n) (hu n)⟩

/-- **A run plays exactly each beginning of its score** at some moment. -/
theorem exists_played (hl : s.source.load = .ok c) (hwatch : c.engine.WatchesBalance)
    (ha : (fresh s w).AnswersTo σ S B) (hu : (fresh s w).Undisturbed σ)
    (hf : (fresh s w).Fair σ) (hk : ∃ k, ((fresh s w).after σ k).phase.InLoop) {count : Nat}
    (hd : (fresh s w).FirstDeadlinesFit σ count) (hp : p <+: Score.cycles c B (count + 1) S [])
    (hend : EndsWithNews p) : ∃ n, played ((fresh s w).history σ n) = p := by
  refine exists_played_eq ?_ hend
  obtain ⟨k, hk⟩ := hk
  obtain ⟨n, hlt | ⟨last, hs, hfail⟩⟩ := exists_cycles hl hf hu hk hd
  · obtain ⟨last, -, hplays⟩ := plays_after hl hwatch ha hu n
    exact ⟨n, hp.trans ((Score.cycles_mono hlt).trans hplays.ge)⟩
  · have hplays := hs.plays (.failed hfail) hwatch (ha n) (hu n)
    exact ⟨n, hp.trans (hplays.whole hfail _)⟩

end

end Engine

end TradingBot
