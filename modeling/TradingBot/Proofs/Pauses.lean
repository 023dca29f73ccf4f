import Mathlib.Order.Monotone.Defs
import TradingBot.Proofs.Deadlines

/-!
# Pauses on every clock

**Settings** (`Pause.Setting`). A clock that goes on as it likes, but never back, and a request to
stop at any moment or at none. A turn of a pause looks for the request, then reads the clock, then
falls asleep (`Pause.Setting.Nap`). Time may pass in between, and the request may come. What a turn
does is decided by `Pause.nextIn`.

**Naps** (`Pause.Setting.Awake`). A nap ends when it should or later, so that it takes the clock a
whole tick further, or to the deadline. This bounds the number of naps
(`Pause.Setting.Begun.length_le`), and with that every pause returns
(`Pause.Setting.Turns.returns`). If time passes in sleep only, it returns exactly at its deadline
(`Pause.Setting.Returns.clock_eq`).

**Requests** (`Pause.Setting.Begun.last_of_stop`). Once a stop is requested only one more nap can
begin, of a turn that had looked for the request too early.

**The pauses of an engine** (`Engine.Pausing`). The moves of a schedule are the moments of a
setting, and the sleeps of the start at work are naps in it.

**Theorem (`Engine.pause_ends_at_deadline_or_stop`).** Pauses come to their ends, in every setting
and on every schedule.
-/

namespace TradingBot

namespace Pause

/-- What a pause takes place in. -/
structure Setting (μ : Type) [LinearOrder μ] where
  clock : μ → Nat
  clock_mono : Monotone clock
  stop : μ → Bool
  stop_stays : ∀ {m n}, m ≤ n → stop m = true → stop n = true
  /-- How far the clock counts in a second, which is the longest tick. -/
  second : Nat
  second_pos : 0 < second
  /-- The seconds to pause for. -/
  interval : Nat
  start : μ

namespace Setting

variable {μ : Type} [LinearOrder μ]

def deadline (s : Setting μ) : Nat := s.clock s.start + s.interval * s.second

/-- The decision of a turn that looks for a request and reads the clock at these moments. -/
def turn (s : Setting μ) (looked read : μ) : Pause :=
  nextIn s.second (s.stop looked) (s.clock read) s.deadline

/-- A turn that falls asleep. -/
structure Nap (s : Setting μ) where
  looked : μ
  read : μ
  begun : μ
  length : Nat
  looked_le_read : looked ≤ read
  read_le_begun : read ≤ begun
  decides : s.turn looked read = .sleep length

variable {s : Setting μ} {l : List s.Nap} {nap : s.Nap} {m m' : μ}

/-- The nap may be over at a moment, which is no earlier than it should be. -/
structure Nap.Over (nap : s.Nap) (m : μ) : Prop where
  le : nap.begun ≤ m
  passed : s.clock nap.begun + nap.length ≤ s.clock m

/-- After these naps the pause is at the top of its loop. -/
inductive Awake (s : Setting μ) : List s.Nap → μ → Prop
  | fresh {m : μ} : s.start ≤ m → Awake s [] m
  | woken {l : List s.Nap} {nap : s.Nap} {m : μ} :
      Awake s l nap.looked → nap.Over m → Awake s (l ++ [nap]) m

/-- The pause has begun these naps, and may not be out of the last one. -/
inductive Begun (s : Setting μ) : List s.Nap → Prop
  | none : Begun s []
  | one {l : List s.Nap} {nap : s.Nap} : Awake s l nap.looked → Begun s (l ++ [nap])

/-- After these naps the pause looks for a request and reads the clock once more, and is over. -/
structure Returns (s : Setting μ) (l : List s.Nap) (looked read : μ) : Prop where
  awake : s.Awake l looked
  le : looked ≤ read
  decides : s.turn looked read = .interrupted ∨ s.turn looked read = .ended

/-- How long these naps were to be, taken together. -/
def slept (l : List s.Nap) : Nat := (l.map (·.length)).sum

/-! ## One nap -/

namespace Nap

theorem stop_eq_false (nap : s.Nap) : s.stop nap.looked = false :=
  (nextIn_eq_sleep_iff.mp nap.decides).1

theorem read_lt_deadline (nap : s.Nap) : s.clock nap.read < s.deadline :=
  (nextIn_eq_sleep_iff.mp nap.decides).2.1

theorem length_eq (nap : s.Nap) : nap.length = min s.second (s.deadline - s.clock nap.read) :=
  (nextIn_eq_sleep_iff.mp nap.decides).2.2

theorem length_pos (nap : s.Nap) : 0 < nap.length := by
  rw [nap.length_eq, Nat.lt_min]
  exact ⟨s.second_pos, Nat.sub_pos_of_lt nap.read_lt_deadline⟩

theorem length_le_second (nap : s.Nap) : nap.length ≤ s.second := by
  rw [nap.length_eq]
  exact Nat.min_le_left _ _

theorem read_add_length_le (nap : s.Nap) : s.clock nap.read + nap.length ≤ s.deadline := by
  have hlt := nap.read_lt_deadline
  rw [nap.length_eq]
  omega

theorem clock_looked_le (nap : s.Nap) : s.clock nap.looked ≤ s.clock nap.read :=
  s.clock_mono nap.looked_le_read

theorem clock_read_le (nap : s.Nap) : s.clock nap.read ≤ s.clock nap.begun :=
  s.clock_mono nap.read_le_begun

theorem Over.later (h : nap.Over m) (hm : m ≤ m') : nap.Over m' :=
  ⟨h.le.trans hm, h.passed.trans (s.clock_mono hm)⟩

/-- A nap takes the clock a tick further, or to the deadline. -/
theorem Over.ticks (h : nap.Over m) :
    s.clock nap.looked + s.second ≤ s.clock m ∨ s.deadline ≤ s.clock m := by
  have hlooked := nap.clock_looked_le
  have hread := nap.clock_read_le
  have hpassed := h.passed
  rw [nap.length_eq] at hpassed
  omega

end Nap

/-! ## Nap after nap -/

theorem Awake.later (h : s.Awake l m) (hm : m ≤ m') : s.Awake l m' := by
  cases h with
  | fresh h => exact .fresh (h.trans hm)
  | woken h hover => exact .woken h (hover.later hm)

theorem Awake.begun (h : s.Awake l m) : s.Begun l := by
  cases h with
  | fresh => exact .none
  | woken h => exact .one h

/-- After so many naps as many ticks have passed, unless the deadline has. -/
theorem Awake.ticks (h : s.Awake l m) :
    s.clock s.start + l.length * s.second ≤ s.clock m ∨ s.deadline ≤ s.clock m := by
  induction h with
  | fresh h =>
    rw [List.length_nil, Nat.zero_mul, Nat.add_zero]
    exact .inl (s.clock_mono h)
  | @woken l nap m _ hover ih =>
    have hlt := nap.clock_looked_le.trans_lt nap.read_lt_deadline
    have hticks := ih.resolve_right (Nat.not_le.mpr hlt)
    rw [List.length_append, List.length_singleton, Nat.succ_mul]
    exact hover.ticks.imp_left fun h => by omega

/-- **A pause takes no more naps than it is to last seconds.** -/
theorem Begun.length_le (h : s.Begun l) : l.length ≤ s.interval := by
  cases h with
  | none => exact Nat.zero_le _
  | @one l nap h =>
    have hlt := nap.clock_looked_le.trans_lt nap.read_lt_deadline
    have hticks := h.ticks.resolve_right (Nat.not_le.mpr hlt)
    have hmul : l.length * s.second < s.interval * s.second := by
      rw [deadline] at hlt
      omega
    rw [List.length_append, List.length_singleton]
    exact Nat.lt_of_mul_lt_mul_right hmul

theorem slept_concat : slept (l ++ [nap]) = slept l + nap.length := by
  rw [slept, List.map_append, List.sum_append, List.map_singleton, List.sum_singleton, slept]

/-- No nap is cut short. -/
theorem Awake.slept_le (h : s.Awake l m) : s.clock s.start + slept l ≤ s.clock m := by
  induction h with
  | fresh h => exact s.clock_mono h
  | @woken l nap m _ hover ih =>
    have hread := nap.clock_looked_le.trans nap.clock_read_le
    have hpassed := hover.passed
    rw [slept_concat]
    omega

/-- **A pause never means to sleep longer than its interval.** -/
theorem Begun.slept_le (h : s.Begun l) : slept l ≤ s.interval * s.second := by
  cases h with
  | none => exact Nat.zero_le _
  | @one l nap h =>
    have hslept := h.slept_le
    have hlooked := nap.clock_looked_le
    have hle := nap.read_add_length_le
    rw [deadline] at hle
    rw [slept_concat]
    omega

/-! ## A stop that is requested -/

theorem Awake.begun_le (h : s.Awake l m) : ∀ nap ∈ l, nap.begun ≤ m := by
  induction h with
  | fresh => simp
  | @woken l last m _ hover ih =>
    intro nap hnap
    rcases List.mem_append.mp hnap with hnap | hnap
    · calc nap.begun ≤ last.looked := ih nap hnap
        _ ≤ last.read := last.looked_le_read
        _ ≤ last.begun := last.read_le_begun
        _ ≤ m := hover.le
    · rw [List.mem_singleton.mp hnap]
      exact hover.le

/-- Each turn looks for a request only after all naps before it have begun. -/
theorem Begun.pairwise (h : s.Begun l) : l.Pairwise fun a b => a.begun ≤ b.looked := by
  cases h with
  | none => exact .nil
  | @one l nap h =>
    generalize hm : nap.looked = m at h
    induction h generalizing nap with
    | fresh => exact List.pairwise_singleton _ _
    | @woken l last m h hover ih =>
      refine List.pairwise_append.mpr ⟨ih rfl, List.pairwise_singleton _ _, fun a ha b hb => ?_⟩
      rw [List.mem_singleton.mp hb, hm]
      exact (Awake.woken h hover).begun_le a ha

/-- **Of the naps that begin once a stop is requested** there is no more than the last one, and its
turn had looked for a request before. -/
theorem Begun.last_of_stop {f : μ} {before rest : List s.Nap} (hf : s.stop f = true)
    (h : s.Begun (before ++ nap :: rest)) (hnap : f ≤ nap.begun) :
    rest = [] ∧ nap.looked < f := by
  have hbefore (nap : s.Nap) : nap.looked < f := by
    by_contra hle
    cases nap.stop_eq_false.symm.trans (s.stop_stays (le_of_not_gt hle) hf)
  refine ⟨List.eq_nil_iff_forall_not_mem.mpr fun other hother => ?_, hbefore nap⟩
  have hrest := (List.pairwise_cons.mp (List.pairwise_append.mp h.pairwise).2.1).1
  exact (hbefore other).not_ge (hnap.trans (hrest other hother))

/-! ## The return -/

variable {looked read : μ}

theorem Returns.deadline_le (h : s.Returns l looked read) (hs : s.stop looked = false) :
    s.deadline ≤ s.clock read := by
  rcases h.decides with h | h
  · cases hs.symm.trans (nextIn_eq_interrupted_iff.mp h)
  · exact (nextIn_eq_ended_iff.mp h).2

/-- A pause whose clock shows at its return that it has only slept returns exactly at its deadline,
if no stop was requested before. -/
theorem Returns.clock_eq (h : s.Returns l looked read)
    (hexact : s.clock read = s.clock s.start + slept l)
    (hs : ∀ f, s.clock f < s.deadline → s.stop f = false) : s.clock read = s.deadline := by
  have hle : s.clock read ≤ s.deadline := by
    rw [hexact, deadline]
    exact Nat.add_le_add_left h.awake.begun.slept_le _
  refine hle.antisymm ?_
  rcases Nat.lt_or_ge (s.clock looked) s.deadline with hlt | hge
  · exact h.deadline_le (hs looked hlt)
  · exact hge.trans (s.clock_mono h.le)

/-! ## Turn after turn -/

/-- The moments of a loop, turn by turn, as its surroundings let it go on. -/
structure Turns (s : Setting μ) where
  looked : Nat → μ
  read : Nat → μ
  begun : Nat → μ
  start_le : s.start ≤ looked 0
  looked_le_read : ∀ i, looked i ≤ read i
  read_le_begun : ∀ i, read i ≤ begun i
  /-- Whoever falls asleep is woken, but not too early. -/
  begun_le : ∀ i, begun i ≤ looked (i + 1)
  wakes : ∀ i length, s.turn (looked i) (read i) = .sleep length →
    s.clock (begun i) + length ≤ s.clock (looked (i + 1))

namespace Turns

variable {t : s.Turns}

/-- Time passes only in sleep, and then exactly as long as the sleep was to last. -/
structure Exact (t : s.Turns) : Prop where
  start : s.clock (t.looked 0) = s.clock s.start
  awake : ∀ i, s.clock (t.begun i) = s.clock (t.looked i)
  asleep : ∀ i length, s.turn (t.looked i) (t.read i) = .sleep length →
    s.clock (t.looked (i + 1)) = s.clock (t.begun i) + length

theorem Exact.clock_read (h : t.Exact) (k : Nat) :
    s.clock (t.read k) = s.clock (t.looked k) :=
  le_antisymm ((s.clock_mono (t.read_le_begun k)).trans (h.awake k).le)
    (s.clock_mono (t.looked_le_read k))

/-- So many turns have fallen asleep, and the next one has begun. -/
structure Reaches (t : s.Turns) (l : List s.Nap) (k : Nat) : Prop where
  length : l.length = k
  awake : s.Awake l (t.looked k)
  exact : t.Exact → s.clock (t.looked k) = s.clock s.start + slept l

theorem reaches_zero (t : s.Turns) : t.Reaches [] 0 := ⟨rfl, .fresh t.start_le, fun h => h.start⟩

/-- A turn returns or falls asleep, and then there is a next turn. -/
theorem Reaches.next {k : Nat} (h : t.Reaches l k) :
    s.Returns l (t.looked k) (t.read k) ∨ ∃ nap, t.Reaches (l ++ [nap]) (k + 1) := by
  cases hturn : s.turn (t.looked k) (t.read k) with
  | interrupted => exact .inl ⟨h.awake, t.looked_le_read k, .inl hturn⟩
  | ended => exact .inl ⟨h.awake, t.looked_le_read k, .inr hturn⟩
  | sleep length =>
    let nap : s.Nap := ⟨t.looked k, t.read k, t.begun k, length, t.looked_le_read k,
      t.read_le_begun k, hturn⟩
    have hover : nap.Over (t.looked (k + 1)) := ⟨t.begun_le k, t.wakes k length hturn⟩
    refine .inr ⟨nap, ?_, .woken h.awake hover, fun hexact => ?_⟩
    · rw [List.length_append, List.length_singleton, h.length]
    · rw [hexact.asleep k length hturn, hexact.awake, h.exact hexact, slept_concat, Nat.add_assoc]

/-- **Every pause returns**, after no more naps than it is to last seconds. -/
theorem returns (t : s.Turns) : ∃ k ≤ s.interval, ∃ l, t.Reaches l k ∧
    s.Returns l (t.looked k) (t.read k) := by
  by_contra hno
  have hreaches : ∀ k ≤ s.interval + 1, ∃ l, t.Reaches l k := by
    intro k hk
    induction k with
    | zero => exact ⟨[], t.reaches_zero⟩
    | succ k ih =>
      obtain ⟨l, hl⟩ := ih (by omega)
      rcases hl.next with hret | ⟨nap, hnext⟩
      · exact absurd ⟨k, by omega, l, hl, hret⟩ hno
      · exact ⟨_, hnext⟩
  obtain ⟨l, hl⟩ := hreaches _ (Nat.le_refl _)
  have hle := hl.awake.begun.length_le
  rw [hl.length] at hle
  omega

end Turns

/-! ## Sound pauses -/

/-- How a pause goes in its setting, whatever the clock does and whenever a stop is requested. -/
structure Sound (s : Setting μ) : Prop where
  /-- The time left is only computed before the deadline. A nap is to last for some time, but no
  longer than a tick, and not beyond the deadline. -/
  naps : ∀ nap : s.Nap, s.clock nap.read < s.deadline ∧ 0 < nap.length ∧ nap.length ≤ s.second ∧
    s.clock nap.read + nap.length ≤ s.deadline
  /-- No more naps are begun than the pause is to last seconds, and taken together they are to last
  no longer than that. -/
  few : ∀ l, s.Begun l → l.length ≤ s.interval ∧ slept l ≤ s.interval * s.second
  /-- Once a stop is requested, at most one more nap is begun, by a turn that had looked for a
  request before. -/
  stops : ∀ f, s.stop f = true → ∀ before nap rest, s.Begun (before ++ nap :: rest) →
    f ≤ nap.begun → rest = [] ∧ nap.looked < f
  /-- While no stop is requested, it does not return before the deadline. -/
  notEarly : ∀ l looked read, s.Returns l looked read → s.stop looked = false →
    s.deadline ≤ s.clock read
  /-- It returns, and where time passes only in sleep and sleep is exact, it does so exactly at the
  deadline unless a stop is requested before. -/
  returns : ∀ t : s.Turns, ∃ k ≤ s.interval, ∃ l, l.length = k ∧
    s.Returns l (t.looked k) (t.read k) ∧
    (t.Exact → (∀ f, s.clock f < s.deadline → s.stop f = false) →
      s.clock (t.read k) = s.deadline)

theorem sound (s : Setting μ) : s.Sound where
  naps nap := ⟨nap.read_lt_deadline, nap.length_pos, nap.length_le_second, nap.read_add_length_le⟩
  few l h := ⟨h.length_le, h.slept_le⟩
  stops f hf before nap rest h hnap := h.last_of_stop hf hnap
  notEarly l looked read h hs := h.deadline_le hs
  returns t := by
    obtain ⟨k, hk, l, hl, hret⟩ := t.returns
    refine ⟨k, hk, l, hl.length, hret, fun hexact hs => hret.clock_eq ?_ hs⟩
    rw [hexact.clock_read, hl.exact hexact]

end Setting

end Pause

namespace Engine

variable {ω ς : Type} {e e' : Engine ω ς} {evs : List Event} {run : Run ω ς} {s : Setup ω ς}
  {w : ω} {σ : Schedule ω} {n m : Nat}

/-! ## The pauses of an engine -/

/-- The setting of a pause that begins after so many moves. -/
def pauseFrom (e : Engine ω ς) (σ : Schedule ω) (n : Nat) : Pause.Setting Nat where
  clock m := (e.after σ m).now
  clock_mono _ _ h := now_mono e σ h
  stop m := (e.after σ m).stopRequested
  stop_stays := stopRequested_after
  second := Pause.tick
  second_pos := by decide
  interval := e.interval
  start := n

/-- The sleeps of the start at work from one moment to another: when each begins, and how long it
is to last. -/
def sleeps (e : Engine ω ς) (σ : Schedule ω) (n : Nat) : Nat → List (Nat × Nat)
  | 0 => []
  | m + 1 =>
    if n ≤ m ∧ (e.after σ (m + 1)).wake ≠ (e.after σ m).wake then
      e.sleeps σ n m ++ [(m, (e.after σ (m + 1)).wake - (e.after σ m).now)]
    else e.sleeps σ n m

/-- After these naps of a pause, the start at work is awake or in the last one. -/
inductive Resting (e : Engine ω ς) (σ : Schedule ω) (n : Nat) :
    List (e.pauseFrom σ n).Nap → Nat → Prop
  | awake {l : List (e.pauseFrom σ n).Nap} {m : Nat} :
      (e.pauseFrom σ n).Awake l m → (e.after σ m).wake ≤ (e.after σ m).now → Resting e σ n l m
  | asleep {l : List (e.pauseFrom σ n).Nap} {nap : (e.pauseFrom σ n).Nap} {m : Nat} :
      (e.pauseFrom σ n).Awake l nap.looked → nap.begun ≤ m →
      (e.after σ m).wake = (e.after σ nap.begun).now + nap.length → Resting e σ n (l ++ [nap]) m

/-- The pause that began after `n` moves still goes on after `m`, and these are its naps. -/
structure Pausing (e : Engine ω ς) (σ : Schedule ω) (n : Nat) (run : Run ω ς)
    (l : List (e.pauseFrom σ n).Nap) (m : Nat) : Prop where
  le : n ≤ m
  phase : (e.after σ m).phase = .pausing run (e.pauseFrom σ n).deadline
  /-- They are all the sleeps that there were, and each was begun at the moment of its turn. -/
  sleeps : l.map (fun nap => (nap.begun, nap.length)) = e.sleeps σ n m
  atOnce : ∀ nap ∈ l, nap.looked = nap.begun
  resting : e.Resting σ n l m
  /-- On a punctual clock no time passes but in sleep. -/
  limit_le : e.Punctual σ →
    (e.after σ m).limit ≤ (e.after σ n).now + Pause.Setting.slept l

variable {l : List (e.pauseFrom σ n).Nap}

theorem Resting.begun (h : e.Resting σ n l m) : (e.pauseFrom σ n).Begun l := by
  cases h with
  | awake h => exact h.begun
  | asleep h => exact .one h

theorem Resting.awake_of (h : e.Resting σ n l m)
    (ha : (e.after σ m).wake ≤ (e.after σ m).now) : (e.pauseFrom σ n).Awake l m := by
  cases h with
  | awake h => exact h
  | asleep h hle hwake => exact .woken h ⟨hle, hwake.symm.trans_le ha⟩

theorem sleeps_of_waits (h : (e.after σ (m + 1)).wake = (e.after σ m).wake) :
    e.sleeps σ n (m + 1) = e.sleeps σ n m := by
  rw [sleeps, if_neg fun hne => hne.2 h]

theorem sleeps_of_lt (hnm : n ≤ m) (h : (e.after σ m).wake < (e.after σ (m + 1)).wake) :
    e.sleeps σ n (m + 1) =
      e.sleeps σ n m ++ [(m, (e.after σ (m + 1)).wake - (e.after σ m).now)] := by
  rw [sleeps, if_pos ⟨hnm, h.ne'⟩]

theorem sleeps_eq_nil (e : Engine ω ς) (σ : Schedule ω) {n m : Nat} (h : m ≤ n) :
    e.sleeps σ n m = [] := by
  induction m with
  | zero => rfl
  | succ m ih => rw [sleeps, if_neg fun hm => by omega, ih (by omega)]

theorem Pausing.length_sleeps_le (h : e.Pausing σ n run l m) :
    (e.sleeps σ n m).length ≤ e.interval := by
  rw [← h.sleeps, List.length_map]
  exact h.resting.begun.length_le

theorem Pausing.of_mem_sleeps {begun length : Nat} (h : e.Pausing σ n run l m)
    (hmem : (begun, length) ∈ e.sleeps σ n m) :
    (e.after σ begun).stopRequested = false ∧ 0 < length ∧ length ≤ Pause.tick ∧
      (e.after σ begun).now + length ≤ (e.pauseFrom σ n).deadline := by
  rw [← h.sleeps] at hmem
  obtain ⟨nap, hnap, heq⟩ := List.mem_map.mp hmem
  obtain ⟨rfl, rfl⟩ := Prod.ext_iff.mp heq
  have hlooked := h.atOnce nap hnap
  have hread : nap.read = nap.begun :=
    nap.read_le_begun.antisymm (hlooked.ge.trans nap.looked_le_read)
  have hstop := nap.stop_eq_false
  have hle := nap.read_add_length_le
  rw [hlooked] at hstop
  rw [hread] at hle
  exact ⟨hstop, nap.length_pos, nap.length_le_second, hle⟩

/-- A move that is no turn leaves a pause as it is. -/
theorem Pausing.waits (h : e.Pausing σ n run l m) (hl : (e.after σ m).lifecycle ≠ .notStarted)
    (hn : ¬ e.IsTurn σ m) : e.Pausing σ n run l (m + 1) := by
  have hmove := move_follows (e.after σ m) (σ m)
  obtain ⟨hw, -⟩ := hmove.waits hl hn
  refine ⟨h.le.trans (Nat.le_succ m), hw.phase.trans h.phase, ?_, h.atOnce, ?_, fun hp => ?_⟩
  · rw [sleeps_of_waits hw.wake, h.sleeps]
  · cases h.resting with
    | awake ha hawake =>
      exact .awake (ha.later (Nat.le_succ m)) (hw.wake.trans_le (hawake.trans hw.now))
    | asleep ha hle hwake => exact .asleep ha (hle.trans (Nat.le_succ m)) (hw.wake.trans hwake)
  · have hpass (ms : Nat) (hm : σ m = .pass ms) :
        (e.after σ m).now + ms ≤ (e.after σ m).limit :=
      (hp m ms hm).resolve_left (by simp [h.phase])
    exact (hmove.limit_le hl hn hpass).trans (h.limit_le hp)

/-- The pause is over at this turn, and the loop goes on. -/
structure PauseEnds (e : Engine ω ς) (σ : Schedule ω) (n : Nat) (run : Run ω ς)
    (l : List (e.pauseFrom σ n).Nap) (m : Nat) : Prop where
  pausing : e.Pausing σ n run l m
  turn : e.IsTurn σ m
  returns : (e.pauseFrom σ n).Returns l m m
  phase : (e.after σ (m + 1)).phase = .checking run

/-- On a punctual clock no time has passed until a turn but in sleep. -/
theorem Pausing.now_of_turn (h : e.Pausing σ n run l m) (ht : e.IsTurn σ m)
    (hp : e.Punctual σ) :
    (e.after σ m).now = (e.after σ n).now + Pause.Setting.slept l := by
  have hawake : (e.after σ m).wake ≤ (e.after σ m).now := by simpa [isAsleep] using ht.2
  exact ((Nat.le_max_left _ _).trans (h.limit_le hp)).antisymm
    (h.resting.awake_of hawake).slept_le

/-- **A turn of a pause** begins one more nap, or it is the last one. -/
theorem Pausing.turn (h : e.Pausing σ n run l m) (ht : e.IsTurn σ m) :
    (∃ nap, e.Pausing σ n run (l ++ [nap]) (m + 1)) ∨ e.PauseEnds σ n run l m := by
  have hawake : (e.after σ m).wake ≤ (e.after σ m).now := by simpa [isAsleep] using ht.2
  have hloop := h.resting.awake_of hawake
  have st := ht.step (by simp [h.phase])
  obtain ⟨-, ⟨hs, hlt, he⟩ | ⟨hend, lines, he⟩⟩ := st.of_pausing h.phase
  · -- The turn falls asleep.
    have hturn : (e.pauseFrom σ n).turn m m = .sleep
        (min Pause.tick ((e.pauseFrom σ n).deadline - (e.after σ m).now)) :=
      Pause.nextIn_eq_sleep_iff.mpr ⟨hs, hlt, rfl⟩
    let nap : (e.pauseFrom σ n).Nap := ⟨m, m, m, _, Nat.le_refl m, Nat.le_refl m, hturn⟩
    have hwake : (e.after σ (m + 1)).wake = (e.after σ m).now + nap.length := by rw [he]
    have hnow : (e.after σ (m + 1)).now = (e.after σ m).now := by rw [he]
    have hpos := nap.length_pos
    refine .inl ⟨nap, h.le.trans (Nat.le_succ m), by rw [he]; exact h.phase, ?_, ?_,
      .asleep hloop (Nat.le_succ m) hwake, fun hp => ?_⟩
    · rw [sleeps_of_lt h.le (by omega), List.map_append, h.sleeps, hwake, Nat.add_sub_cancel_left]
      rfl
    · exact List.forall_mem_append.mpr ⟨h.atOnce, by simp [nap]⟩
    · rw [Pause.Setting.slept_concat, ← Nat.add_assoc, ← h.now_of_turn ht hp, limit, hwake, hnow]
      exact Nat.max_le.mpr ⟨Nat.le_add_right _ _, Nat.le_refl _⟩
  -- The turn sees the request to stop, or the deadline.
  · refine .inr ⟨h, ht, ⟨hloop, Nat.le_refl m, ?_⟩, by rw [he]⟩
    cases hstop : (e.after σ m).stopRequested with
    | true => exact .inl (Pause.nextIn_eq_interrupted_iff.mpr hstop)
    | false =>
      rw [hstop] at hend
      exact .inr (Pause.nextIn_eq_ended_iff.mpr ⟨hstop, hend.resolve_left (by decide)⟩)

/-! ### In every order of moves -/

section

variable {l : List ((fresh s w).pauseFrom σ n).Nap}

theorem Pausing.claimed (h : (fresh s w).Pausing σ n run l m) :
    ((fresh s w).after σ m).lifecycle ≠ .notStarted :=
  (standing_after s w σ m).claimed (by simp [h.phase])

theorem Pausing.next (h : (fresh s w).Pausing σ n run l m) :
    (∃ l', (fresh s w).Pausing σ n run l' (m + 1)) ∨ (fresh s w).PauseEnds σ n run l m := by
  by_cases ht : (fresh s w).IsTurn σ m
  · exact (h.turn ht).imp_left fun ⟨nap, hnext⟩ => ⟨_, hnext⟩
  · exact .inl ⟨l, h.waits h.claimed ht⟩

/-- **At every later moment** a pause still goes on, or it has ended. -/
theorem Pausing.course {k : Nat} (h : (fresh s w).Pausing σ n run l m) (hmk : m ≤ k) :
    (∃ l', (fresh s w).Pausing σ n run l' k) ∨
      ∃ j, m ≤ j ∧ j < k ∧ ∃ l', (fresh s w).PauseEnds σ n run l' j := by
  induction k, hmk using Nat.le_induction with
  | base => exact .inl ⟨l, h⟩
  | succ k hmk ih =>
    rcases ih with ⟨l', hk⟩ | ⟨j, hmj, hjk, hend⟩
    · exact hk.next.imp_right fun hend => ⟨k, hmk, Nat.lt_succ_self k, l', hend⟩
    · exact .inr ⟨j, hmj, Nat.lt_succ_of_lt hjk, hend⟩

theorem Pausing.until_turn {k : Nat} (h : (fresh s w).Pausing σ n run l m) (hmk : m ≤ k)
    (hno : ∀ j, m ≤ j → j < k → ¬ (fresh s w).IsTurn σ j) : (fresh s w).Pausing σ n run l k := by
  induction k, hmk using Nat.le_induction with
  | base => exact h
  | succ k hmk ih =>
    have hk := ih fun j hj hjk => hno j hj (Nat.lt_succ_of_lt hjk)
    exact hk.waits hk.claimed (hno k hmk (Nat.lt_succ_self k))

/-- **On a fair schedule a pause ends**, for it cannot begin naps for ever. -/
theorem Pausing.ends (h : (fresh s w).Pausing σ n run l m) (hf : (fresh s w).Fair σ) :
    ∃ k, m ≤ k ∧ ∃ l', (fresh s w).PauseEnds σ n run l' k := by
  induction hleft : (fresh s w).interval - l.length using Nat.strong_induction_on
    generalizing l m with
  | _ left ih =>
    obtain ⟨k, hmk, hturn, hno⟩ := next_turn hf m
    rcases (h.until_turn hmk hno).turn hturn with ⟨nap, hnext⟩ | hend
    · have hle : (l ++ [nap]).length ≤ (fresh s w).interval := hnext.resting.begun.length_le
      have hlt : (fresh s w).interval - (l ++ [nap]).length < left := by
        rw [List.length_append, List.length_singleton] at hle ⊢
        omega
      obtain ⟨j, hkj, l', hend⟩ := ih _ hlt hnext rfl
      exact ⟨j, by omega, l', hend⟩
    · exact ⟨k, hmk, l, hend⟩

end

/-- The start at work does not sleep right after a cycle. -/
theorem Step.awake_of_cycle_end (st : Step e evs e') (hcyc : e'.cycles = e.cycles + 1)
    (hb : e'.phase.Between) (ha : e.wake ≤ e.now) : e'.wake ≤ e'.now := by
  rw [st.stays.now]
  rcases st.wake_of_between hb with hw | ⟨-, -, hsame, -⟩
  · rwa [hw]
  · exact absurd (hcyc.symm.trans hsame) (Nat.succ_ne_self _)

/-- A cycle that ends is followed by a pause, if the clock can show its end. -/
theorem pausing_of_cycle_end
    (hcyc : ((fresh s w).after σ (n + 1)).cycles = ((fresh s w).after σ n).cycles + 1)
    (hfit : ((fresh s w).after σ n).CanShow (fresh s w).interval) :
    ∃ run, (fresh s w).Pausing σ (n + 1) run [] (n + 1) := by
  have hint := interval_congr (setup_after (fresh s w) σ n)
  obtain ⟨-, ha, st⟩ := (move_follows ((fresh s w).after σ n) (σ n)).of_cycle_end hcyc
  obtain ⟨run, hp⟩ := st.pauses_on hcyc (settled_after s w σ n) (by rwa [hint])
  have hnow : ((fresh s w).after σ (n + 1)).now = ((fresh s w).after σ n).now := st.stays.now
  have hphase : ((fresh s w).after σ (n + 1)).phase =
      .pausing run ((fresh s w).pauseFrom σ (n + 1)).deadline := by
    rw [hint, ← hnow] at hp
    exact hp
  have hawake : ((fresh s w).after σ (n + 1)).wake ≤ ((fresh s w).after σ (n + 1)).now :=
    st.awake_of_cycle_end hcyc (by rw [hp]; trivial) (by simpa [isAsleep] using ha)
  refine ⟨run, Nat.le_refl _, hphase, (sleeps_eq_nil _ _ (Nat.le_refl _)).symm, by simp,
    .awake (.fresh (Nat.le_refl _)) hawake, fun _ => ?_⟩
  exact (Nat.max_eq_left hawake).le

/-- How an engine pauses after a cycle that its next move ends. -/
structure PausesSoundly (e : Engine ω ς) (σ : Schedule ω) (n : Nat) (run : Run ω ς) : Prop where
  /-- The pause goes on until it ends, and then the loop goes on. -/
  course : ∀ m, n < m → (∃ l, e.Pausing σ (n + 1) run l m) ∨
    ∃ k, n < k ∧ k < m ∧ ∃ l, e.PauseEnds σ (n + 1) run l k
  /-- The sleeps in it are no more than the interval has seconds. Each is begun while no stop is
  requested, and is to last for some time, but no longer than a tick and not beyond the deadline. -/
  sleeps : ∀ m l, e.Pausing σ (n + 1) run l m → (e.sleeps σ (n + 1) m).length ≤ e.interval ∧
    ∀ begun length, (begun, length) ∈ e.sleeps σ (n + 1) m →
      (e.after σ begun).stopRequested = false ∧ 0 < length ∧ length ≤ Pause.tick ∧
      (e.after σ begun).now + length ≤ (e.after σ n).now + e.interval * 1000
  ends : e.Fair σ → ∃ k, n < k ∧ ∃ l, e.PauseEnds σ (n + 1) run l k
  /-- While no stop is requested, it does not end before the interval has passed. -/
  notEarly : ∀ k l, e.PauseEnds σ (n + 1) run l k → (e.after σ k).stopRequested = false →
    (e.after σ n).now + e.interval * 1000 ≤ (e.after σ k).now
  /-- On a punctual clock it ends exactly when the interval has passed, unless a stop is requested
  before. -/
  exact : e.Punctual σ → ∀ k l, e.PauseEnds σ (n + 1) run l k →
    (∀ f, (e.after σ f).now < (e.after σ n).now + e.interval * 1000 →
      (e.after σ f).stopRequested = false) →
    (e.after σ k).now = (e.after σ n).now + e.interval * 1000

theorem pausesSoundly_of_cycle_end
    (hcyc : ((fresh s w).after σ (n + 1)).cycles = ((fresh s w).after σ n).cycles + 1)
    (hfit : ((fresh s w).after σ n).CanShow (fresh s w).interval) :
    ∃ run, (fresh s w).PausesSoundly σ n run := by
  obtain ⟨run, h⟩ := pausing_of_cycle_end hcyc hfit
  have hnow : ((fresh s w).after σ (n + 1)).now = ((fresh s w).after σ n).now :=
    ((move_follows ((fresh s w).after σ n) (σ n)).of_cycle_end hcyc).2.2.stays.now
  have hdeadline : ((fresh s w).pauseFrom σ (n + 1)).deadline =
      ((fresh s w).after σ n).now + (fresh s w).interval * 1000 := by
    rw [← hnow]
    rfl
  refine ⟨run, fun m hm => h.course hm, fun m l hl => ⟨hl.length_sleeps_le, ?_⟩, h.ends,
    fun k l hend hs => ?_, fun hp k l hend hs => ?_⟩
  · rw [← hdeadline]
    exact fun begun length => hl.of_mem_sleeps
  · rw [← hdeadline]
    exact hend.returns.deadline_le hs
  · rw [← hdeadline] at hs ⊢
    exact hend.returns.clock_eq (hend.pausing.now_of_turn hend.turn hp) hs

/-- **A pause comes to its end**, on every clock, in every unit of time and with a request to stop
at any moment: after no more naps than it is to last seconds, each for a tick at most and none
beyond the deadline, and unless a stop is requested not before the deadline. The pauses of an engine
are of this kind, in every order of moves, if the clock can show their deadlines. -/
theorem pause_ends_at_deadline_or_stop :
    (∀ (μ : Type) [LinearOrder μ] (p : Pause.Setting μ), p.Sound) ∧
    ∀ (ω ς : Type) (s : Setup ω ς) (w : ω) (σ : Schedule ω) (n : Nat),
      ((fresh s w).after σ (n + 1)).cycles = ((fresh s w).after σ n).cycles + 1 →
      ((fresh s w).after σ n).CanShow (fresh s w).interval →
      ∃ run, (fresh s w).PausesSoundly σ n run :=
  ⟨fun _ _ p => p.sound, fun _ _ _ _ _ _ => pausesSoundly_of_cycle_end⟩

end Engine

/-! ## Rehearsed pauses -/

namespace Rehearsed

/-- A pause for three seconds on a clock that goes on by `pace` from moment to moment. A stop is
requested at one of them. -/
def paced (pace asked : Nat) : Pause.Setting Nat where
  clock m := pace * m
  clock_mono _ _ h := Nat.mul_le_mul_left pace h
  stop m := decide (asked ≤ m)
  stop_stays hmn hm := decide_eq_true ((of_decide_eq_true hm).trans hmn)
  second := 1000
  second_pos := by decide
  interval := 3
  start := 0

/-- The stop is requested after the turn has looked for it, and before it falls asleep. -/
def belated : (paced 400 2).Nap where
  looked := 1
  read := 1
  begun := 2
  length := 1000
  looked_le_read := by decide
  read_le_begun := by decide
  decides := by decide

/-- At every moment there is a turn, and a moment is a second. -/
def steady : (paced 1000 9).Turns where
  looked i := i
  read i := i
  begun i := i
  start_le := Nat.zero_le 0
  looked_le_read i := Nat.le_refl i
  read_le_begun i := Nat.le_refl i
  begun_le i := Nat.le_succ i
  wakes i length h := by
    obtain ⟨-, -, rfl⟩ := Pause.nextIn_eq_sleep_iff.mp h
    exact Nat.add_le_add_left (Nat.min_le_left _ _) _

theorem exact_steady : steady.Exact where
  start := rfl
  awake _ := rfl
  asleep i length h := by
    obtain ⟨-, hlt, rfl⟩ := Pause.nextIn_eq_sleep_iff.mp h
    have hlt : 1000 * i < 3000 := hlt
    show 1000 * (i + 1) = 1000 * i + min 1000 (3000 - 1000 * i)
    omega

theorem schedule_passes {n ms : Nat} (h : schedule n = .pass ms) :
    n ≠ 0 ∧ n % 12 = 0 ∧ ms = 1000 := by
  cases n with
  | zero => cases h
  | succ n =>
    simp only [schedule] at h
    split at h
    · cases h
      exact ⟨Nat.succ_ne_zero n, by omega, rfl⟩
    · cases h

/-- A stop that comes too late for a nap ends the pause at the next turn. A pause that nobody asks
to stop lasts for three seconds on a steady clock, and the first pause of an engine for one. -/
theorem pause_rehearsed :
    ((paced 400 2).Returns [belated] 5 5 ∧ (paced 400 2).clock 5 < (paced 400 2).deadline ∧
      belated.looked < 2) ∧
    (∃ k ≤ 3, (paced 1000 9).clock k = 3000) ∧
    ((Engine.fresh setup world).Fair schedule ∧ (Engine.fresh setup world).Punctual schedule ∧
      ∃ run k l, (Engine.fresh setup world).PauseEnds schedule 6 run l k ∧
        ((Engine.fresh setup world).after schedule k).now = 1000) := by
  refine ⟨⟨⟨.woken (.fresh (by decide)) ⟨by decide, by decide⟩, Nat.le_refl 5, by decide⟩,
    by decide, ?_⟩, ?_, ?_⟩
  · exact ((Engine.pause_ends_at_deadline_or_stop.1 Nat (paced 400 2)).stops 2 (by decide) []
      belated [] (.one (.fresh (by decide))) (by decide)).2
  · obtain ⟨k, hk, l, -, -, hexact⟩ :=
      (Engine.pause_ends_at_deadline_or_stop.1 Nat (paced 1000 9)).returns steady
    refine ⟨k, hk, hexact exact_steady fun f hf => ?_⟩
    have hf : 1000 * f < 3000 := hf
    exact decide_eq_false (by omega)
  · have hidle : ((Engine.fresh setup world).after schedule 30).phase = .idle :=
      Engine.isIdle_iff.mp (by decide +kernel)
    have hclaimed : ((Engine.fresh setup world).after schedule 30).lifecycle ≠ .notStarted := by
      decide +kernel
    have hfair : (Engine.fresh setup world).Fair schedule :=
      Engine.fair_of_ended hidle hclaimed (by decide +kernel) schedule_works
    have hpunct : (Engine.fresh setup world).Punctual schedule := by
      refine Engine.punctual_of_ended hidle hclaimed fun n hn ms hpass => ?_
      obtain ⟨hne, hmod, rfl⟩ := schedule_passes hpass
      exact (by decide +kernel : ∀ n < 30, n ≠ 0 → n % 12 = 0 →
        ((Engine.fresh setup world).after schedule n).now + 1000 ≤
          ((Engine.fresh setup world).after schedule n).limit) n hn hne hmod
    obtain ⟨run, hpause⟩ :=
      Engine.pause_ends_at_deadline_or_stop.2 Rehearsal String setup world schedule 5
        (by decide +kernel) (by decide +kernel)
    obtain ⟨k, -, l, hend⟩ := hpause.ends hfair
    have hdeadline : ((Engine.fresh setup world).after schedule 5).now +
        (Engine.fresh setup world).interval * 1000 = 1000 := by decide +kernel
    have hlate : ((Engine.fresh setup world).after schedule 13).now = 1000 := by decide +kernel
    have hexact := hpause.exact hpunct k l hend fun f hf => ?_
    · exact ⟨hfair, hpunct, run, k, l, hend, hexact.trans hdeadline⟩
    · -- Before the thirteenth move nobody has asked to stop, and after it the pause is over.
      rw [hdeadline, ← hlate] at hf
      have hlt : f < 13 := by
        by_contra hge
        exact hf.not_ge (Engine.now_mono _ schedule (Nat.le_of_not_lt hge))
      exact (by decide +kernel : ∀ f < 13,
        ((Engine.fresh setup world).after schedule f).stopRequested = false) f hlt

end Rehearsed

end TradingBot
