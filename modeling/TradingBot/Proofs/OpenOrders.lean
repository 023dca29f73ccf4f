import Mathlib.Data.List.Nodup
import TradingBot.Proofs.Desk
import TradingBot.Proofs.DecimalRange

/-!
# The orders on the books

**What the books should hold** (`standing`). Read off the deeds alone: the orders that were entered
and that no later withdrawal names by identifier and market, oldest first.

**The invariant** (`Desk.Booked`). The exchange holds exactly these orders. Each was entered by one
call, which has returned its identifier, and no order is left of an identifier that a withdrawal has
found. One act keeps it as long as no identifier is drawn that an order already bears
(`Desk.Booked.deals`).

**Theorem (`Desk.keepsBooks_after`).** An exchange that draws each identifier once keeps its books,
in whatever order its callers take their turns.
-/

namespace TradingBot

theorem Decimal.sub_self (d : Decimal) : ∃ z, d.sub d = .ok z ∧ z.value = 0 := by
  suffices h : ∃ z, d.sub? d = some z ∧ z.coeff = 0 by
    obtain ⟨z, hz, h0⟩ := h
    exact ⟨z, sub_eq_ok.mpr hz, by simp [value, h0]⟩
  by_cases hd : d.coeff = 0
  · exact ⟨d.neg, by simp [sub?, add?, hd], by simp [neg, hd]⟩
  · have hfit : d.sub? d = fit 0 d.scale := by
      simp [sub?, add?, neg, hd]
    rw [hfit, fit, Nat.min_eq_left d.scale_le]
    have hzero (places : Nat) : rescale .toEven 0 d.scale places = 0 := by
      simp [rescale, roundDivInt]
    have hmake {places : Nat} (h : places ≤ maxScale) :
        ∃ z, make? 0 places = some z ∧ z.coeff = 0 :=
      ⟨⟨0, places, by decide, h⟩, make?_eq_some.mpr ⟨rfl, rfl⟩, rfl⟩
    obtain ⟨z, hz, h0⟩ := hmake d.scale_le
    refine ⟨z, ?_, h0⟩
    generalize hs : d.scale = s at hz hzero
    cases s with
    | zero => rw [fitFrom, hzero, hz]
    | succ places => rw [fitFrom, hzero, hz]

namespace Paper

/-! ## Orders that were entered and not withdrawn -/

def Deed.Withdraws (o : OpenOrder) : Deed → Prop
  | .entered _ _ => False
  | .withdrew id m => IsOrder id m o

instance (o : OpenOrder) (x : Deed) : Decidable (x.Withdraws o) :=
  match x with
  | .entered _ _ => .isFalse id
  | .withdrew id m => inferInstanceAs (Decidable (IsOrder id m o))

def Deed.order? : Deed → Option OpenOrder
  | .entered _ o => some o
  | .withdrew _ _ => none

/-- All orders that were ever entered. -/
def entries (h : List Deed) : List OpenOrder := h.filterMap Deed.order?

/-- The orders that were entered and not withdrawn since, oldest first. -/
def standing : List Deed → List OpenOrder
  | [] => []
  | .entered _ o :: later =>
    if ∃ x ∈ later, x.Withdraws o then standing later else o :: standing later
  | .withdrew _ _ :: later => standing later

variable {h deeds : List Deed} {k : Nat} {o : OpenOrder}

theorem mem_entries : o ∈ entries h ↔ ∃ k, .entered k o ∈ h := by
  rw [entries, List.mem_filterMap]
  constructor
  · rintro ⟨x, hx, he⟩
    cases x with
    | entered k o' =>
      cases he
      exact ⟨k, hx⟩
    | withdrew => cases he
  · rintro ⟨k, hk⟩
    exact ⟨_, hk, rfl⟩

theorem entries_append : entries (h ++ deeds) = entries h ++ entries deeds :=
  List.filterMap_append

theorem standing_sublist (h : List Deed) : (standing h).Sublist (entries h) := by
  induction h with
  | nil => exact .slnil
  | cons x later ih =>
    cases x with
    | entered k o =>
      rw [standing]
      split
      · exact ih.cons o
      · exact ih.cons_cons o
    | withdrew => exact ih

theorem standing_entered (h : List Deed) (k : Nat) (o : OpenOrder) :
    standing (h ++ [.entered k o]) = standing h ++ [o] := by
  induction h with
  | nil => simp [standing]
  | cons x later ih =>
    cases x with
    | entered k' o' =>
      -- To enter an order withdraws no other.
      have hiff : (∃ x ∈ later ++ [Deed.entered k o], x.Withdraws o') ↔
          ∃ x ∈ later, x.Withdraws o' := by
        simp [Deed.Withdraws, or_and_right, exists_or]
      by_cases hw : ∃ x ∈ later, x.Withdraws o'
      · rw [List.cons_append, standing, standing, if_pos hw, if_pos (hiff.mpr hw), ih]
      · rw [List.cons_append, standing, standing, if_neg hw, if_neg (mt hiff.mp hw), ih]
        rfl
    | withdrew => exact ih

theorem standing_withdrew (h : List Deed) (id m : String) :
    standing (h ++ [.withdrew id m]) = (standing h).filter fun o => ¬ IsOrder id m o := by
  induction h with
  | nil => rfl
  | cons x later ih =>
    cases x with
    | entered k o =>
      have hiff : (∃ x ∈ later ++ [Deed.withdrew id m], x.Withdraws o) ↔
          (∃ x ∈ later, x.Withdraws o) ∨ IsOrder id m o := by
        simp [Deed.Withdraws, or_and_right, exists_or]
      rw [List.cons_append, standing, standing]
      by_cases hw : ∃ x ∈ later, x.Withdraws o
      · rw [if_pos hw, if_pos (hiff.mpr (.inl hw)), ih]
      · by_cases ho : IsOrder id m o
        · rw [if_neg hw, if_pos (hiff.mpr (.inr ho)), ih,
            List.filter_cons_of_neg (by simpa using ho)]
        · rw [if_neg hw, if_neg (by rw [hiff, not_or]; exact ⟨hw, ho⟩), ih,
            List.filter_cons_of_pos (by simpa using ho)]
    | withdrew => exact ih

/-! ## What an order says -/

/-- The order is the one that a ticket asks for, with nothing filled. -/
structure Records (t : Ticket) (o : OpenOrder) : Prop where
  market : o.marketId = t.marketId
  side : o.side = t.side
  price : o.price = t.price
  quantity : o.quantity = t.quantity
  placed : o.placedQuantity = t.quantity
  total : t.price.mul t.quantity = .ok o.total

theorem orderOf_eq_error_iff {t : Ticket} {id : String} {now : Timestamp} {c : Crash} :
    orderOf t id now = .error c ↔ t.price.mul t.quantity = .error c := by
  unfold orderOf
  cases t.price.mul t.quantity with
  | error c' => constructor <;> intro h <;> cases h <;> rfl
  | ok total => exact iff_of_false nofun nofun

theorem of_orderOf {t : Ticket} {id : String} {now : Timestamp} (h : orderOf t id now = .ok o) :
    o.id = id ∧ Records t o := by
  unfold orderOf at h
  cases hm : t.price.mul t.quantity with
  | error c =>
    rw [hm] at h
    cases h
  | ok total =>
    rw [hm] at h
    cases h
    exact ⟨rfl, rfl, rfl, rfl, rfl, rfl, hm⟩

/-- The order asks for something at some price, nothing of it is filled, and its total is their
product. -/
structure Sound (o : OpenOrder) : Prop where
  price : Decimal.zero < o.price
  quantity : Decimal.zero < o.quantity
  placed : o.quantity = o.placedQuantity
  filled : ∃ z, o.filledQuantity = .ok z ∧ z.value = 0
  total : o.price.mul o.quantity = .ok o.total

theorem Records.sound {t : Ticket} (hr : Records t o) (ht : Acceptable t) : Sound o where
  price := hr.price ▸ ht.2
  quantity := hr.quantity ▸ ht.1
  placed := hr.quantity.trans hr.placed.symm
  filled := by
    rw [OpenOrder.filledQuantity, hr.placed, hr.quantity]
    exact t.quantity.sub_self
  total := by
    rw [hr.price, hr.quantity]
    exact hr.total

/-! ## One act -/

def idsOf (h : List Deed) : List String := (entries h).map (·.id)

theorem idsOf_append : idsOf (h ++ deeds) = idsOf h ++ idsOf deeds := by
  rw [idsOf, entries_append, List.map_append]
  rfl

theorem id_mem_idsOf (ho : .entered k o ∈ h) : o.id ∈ idsOf h :=
  List.mem_map_of_mem (mem_entries.mpr ⟨k, ho⟩)

/-- If no identifier occurs twice, the deed is known by the identifier. -/
theorem eq_of_nodup_idsOf {k' : Nat} {o' : OpenOrder} (hn : (idsOf h).Nodup)
    (ho : .entered k o ∈ h) (ho' : .entered k' o' ∈ h) (hid : o.id = o'.id) : k = k' ∧ o = o' := by
  induction h with
  | nil => cases ho
  | cons x later ih =>
    have hlater : (idsOf later).Nodup := by
      cases x with
      | entered => exact (List.nodup_cons.mp hn).2
      | withdrew => exact hn
    rcases List.mem_cons.mp ho with hx | hm
    · rcases List.mem_cons.mp ho' with hx' | hm'
      · cases hx.trans hx'.symm
        exact ⟨rfl, rfl⟩
      · subst hx
        have hmem := id_mem_idsOf hm'
        rw [← hid] at hmem
        exact absurd hmem (List.nodup_cons.mp hn).1
    · rcases List.mem_cons.mp ho' with hx' | hm'
      · subst hx'
        have hmem := id_mem_idsOf hm
        rw [hid] at hmem
        exact absurd hmem (List.nodup_cons.mp hn).1
      · exact ih hlater hm hm'

namespace Desk

variable {d d' : Desk} {a : Act} {σ : Nat → Act}

/-- What the deeds so far say about a desk. -/
structure Booked (d : Desk) (h : List Deed) : Prop where
  orders : d.orders = standing h
  /-- The call that has entered an order has returned its identifier. -/
  entered : ∀ (k : Nat) (o : OpenOrder), .entered k o ∈ h →
    ∃ t, Acceptable t ∧ Records t o ∧ d.calls[k]? = some (.placed t (.ok o.id))
  /-- A call that has returned an identifier has entered an order. -/
  returned : ∀ (k : Nat) (t : Ticket) (id : String), d.calls[k]? = some (.placed t (.ok id)) →
    ∃ o, .entered k o ∈ h ∧ o.id = id
  distinct : (idsOf h).Nodup
  /-- An identifier that a withdrawal has found was that of an order, and no order bears it any
  more. -/
  gone : ∀ (k : Nat) (id m : String), d.calls[k]? = some (.cancelled id m (.ok true)) →
    id ∈ idsOf h ∧ ∀ o ∈ d.orders, o.id ≠ id
  once : ∀ (k k' : Nat) (id m m' : String), d.calls[k]? = some (.cancelled id m (.ok true)) →
    d.calls[k']? = some (.cancelled id m' (.ok true)) → k = k'

theorem Booked.quiet (hb : Booked d h) (ho : d'.orders = d.orders)
    (hs : ∀ (k : Nat) (s : Stage), s.Succeeds →
      (d'.calls[k]? = some s ↔ d.calls[k]? = some s)) :
    Booked d' (h ++ []) := by
  rw [List.append_nil]
  refine ⟨ho.trans hb.orders, fun k o hm => ?_, fun k t id hk => ?_, hb.distinct,
    fun k id m hk => ?_, fun k k' id m m' hk hk' => ?_⟩
  · obtain ⟨t, ht, hr, hk⟩ := hb.entered k o hm
    exact ⟨t, ht, hr, (hs k _ (.placed t o.id)).mpr hk⟩
  · exact hb.returned k t id ((hs k _ (.placed t id)).mp hk)
  · rw [ho]
    exact hb.gone k id m ((hs k _ (.cancelled id m)).mp hk)
  · exact hb.once k k' id m m' ((hs k _ (.cancelled id m)).mp hk)
      ((hs k' _ (.cancelled id m')).mp hk')

theorem getElem?_concat {l : List Stage} {s s' : Stage} :
    (l ++ [s'])[k]? = some s ↔ l[k]? = some s ∨ (k = l.length ∧ s' = s) := by
  rw [List.getElem?_append]
  split
  · next hk => simp [hk.ne]
  · next hk =>
    have hnone : l[k]? = none := List.getElem?_eq_none (Nat.not_lt.mp hk)
    rcases Nat.eq_or_lt_of_le (Nat.not_lt.mp hk) with he | hlt
    · simp [← he]
    · have hne : k ≠ l.length := hlt.ne'
      have hlen : 1 ≤ k - l.length := by omega
      simp [hnone, hne, List.getElem?_eq_none, hlen]

theorem getElem?_set {l : List Stage} {s s₀ s' : Stage} {j : Nat} (hk : l[k]? = some s₀) :
    (l.set k s')[j]? = some s ↔ (j = k ∧ s' = s) ∨ (j ≠ k ∧ l[j]? = some s) := by
  obtain ⟨hlt, -⟩ := List.getElem?_eq_some_iff.mp hk
  rw [List.getElem?_set]
  by_cases hj : k = j
  · simp [hj ▸ hlt, hj]
  · simp [hj, Ne.symm hj]

theorem succeeds_concat {l : List Stage} {s' : Stage} (hs' : ¬ s'.Succeeds) (k : Nat) (s : Stage)
    (hs : s.Succeeds) : (l ++ [s'])[k]? = some s ↔ l[k]? = some s := by
  rw [getElem?_concat, or_iff_left]
  rintro ⟨-, rfl⟩
  exact hs' hs

theorem succeeds_set {l : List Stage} {s₀ s' : Stage} (hk : l[k]? = some s₀)
    (hs₀ : ¬ s₀.Succeeds) (hs' : ¬ s'.Succeeds) (j : Nat) (s : Stage) (hs : s.Succeeds) :
    (l.set k s')[j]? = some s ↔ l[j]? = some s := by
  rw [getElem?_set hk]
  constructor
  · rintro (⟨rfl, rfl⟩ | ⟨-, hj⟩)
    · exact absurd hs hs'
    · exact hj
  · intro hj
    refine .inr ⟨?_, hj⟩
    rintro rfl
    rw [hk] at hj
    cases hj
    exact hs₀ hs

theorem Booked.enters (hb : Booked d h) {id : String} {now : Timestamp} {t : Ticket}
    {ht : Acceptable t} (hk : d.calls[k]? = some (.ready t ht)) (ho : orderOf t id now = .ok o)
    (hfresh : id ∉ idsOf h) :
    Booked (d.becomes k { d.world with paper := push o d.world.paper } (.placed t (.ok id)))
      (h ++ [.entered k o]) := by
  obtain ⟨rfl, hr⟩ := of_orderOf ho
  have hids : idsOf (h ++ [.entered k o]) = idsOf h ++ [o.id] := idsOf_append
  -- One goal for each field. In each of them, what is asked about is either the new order, at call
  -- `k`, or was there before.
  refine ⟨?_, fun j o' hm => ?_, fun j t' id hj => ?_, ?_,
    fun j id m hj => ?_, fun j j' id m m' hj hj' => ?_⟩
  · rw [standing_entered, ← hb.orders]
    rfl
  · rcases List.mem_append.mp hm with hm | hm
    · obtain ⟨t', ht', hr', hj⟩ := hb.entered j o' hm
      refine ⟨t', ht', hr', (getElem?_set hk).mpr (.inr ⟨?_, hj⟩)⟩
      rintro rfl
      cases hk.symm.trans hj
    · cases List.mem_singleton.mp hm
      exact ⟨t, ht, hr, (getElem?_set hk).mpr (.inl ⟨rfl, rfl⟩)⟩
  · rcases (getElem?_set hk).mp hj with ⟨rfl, he⟩ | ⟨-, hj⟩
    · cases he
      exact ⟨o, by simp, rfl⟩
    · obtain ⟨o', hm, hid⟩ := hb.returned j t' id hj
      exact ⟨o', List.mem_append_left _ hm, hid⟩
  · rw [hids, List.nodup_append]
    refine ⟨hb.distinct, by simp, fun i hi j hj => ?_⟩
    rw [List.mem_singleton.mp hj]
    rintro rfl
    exact hfresh hi
  -- An order that was withdrawn is not the new one, as its identifier is not fresh.
  · rcases (getElem?_set hk).mp hj with ⟨-, he⟩ | ⟨-, hj⟩
    · cases he
    · obtain ⟨hm, hgone⟩ := hb.gone j id m hj
      refine ⟨hids ▸ List.mem_append_left _ hm, List.forall_mem_append.mpr ⟨hgone, ?_⟩⟩
      rw [List.forall_mem_singleton]
      rintro rfl
      exact hfresh hm
  · rcases (getElem?_set hk).mp hj with ⟨-, he⟩ | ⟨-, hj⟩
    · cases he
    · rcases (getElem?_set hk).mp hj' with ⟨-, he⟩ | ⟨-, hj'⟩
      · cases he
      · exact hb.once j j' id m m' hj hj'

/-! ## Withdrawals -/

theorem cancel_fst_iff {id m : String} {p : Paper} :
    (cancel id m p).1 = true ↔ ∃ o ∈ p.orders, IsOrder id m o := by
  rw [cancel, decide_eq_true_iff]
  show (p.orders.filter fun o => ¬ IsOrder id m o).length < p.orders.length ↔ _
  rw [List.length_filter_lt_length_iff_exists]
  simp

theorem Booked.cancels (hb : Booked d h) (id m : String) :
    Booked
      { world := { d.world with paper := (cancel id m d.world.paper).2 }
        calls := d.calls ++ [.cancelled id m (.ok (cancel id m d.world.paper).1)] }
      (h ++ [.withdrew id m]) := by
  have hids : idsOf (h ++ [.withdrew id m]) = idsOf h := by
    rw [idsOf_append]
    exact List.append_nil _
  have horders : (cancel id m d.world.paper).2.orders =
      d.orders.filter fun o => ¬ IsOrder id m o := rfl
  have hsub {o : OpenOrder} (ho : o ∈ (cancel id m d.world.paper).2.orders) : o ∈ d.orders :=
    (List.mem_filter.mp (horders ▸ ho)).1
  -- Only one order can bear the identifier, and then it is the one that goes.
  have hnew (htrue : (cancel id m d.world.paper).1 = true) :
      id ∈ idsOf h ∧ ∀ o ∈ (cancel id m d.world.paper).2.orders, o.id ≠ id := by
    obtain ⟨o, ho, hid, hm⟩ := cancel_fst_iff.mp htrue
    have hsubl : (d.orders.map (·.id)).Sublist (idsOf h) := by
      rw [hb.orders]
      exact (standing_sublist h).map _
    have hnodup := hb.distinct.sublist hsubl
    refine ⟨hsubl.subset (hid ▸ List.mem_map_of_mem ho), fun o' ho' hid' => ?_⟩
    obtain rfl : o' = o := List.inj_on_of_nodup_map hnodup (hsub ho') ho (hid'.trans hid.symm)
    rw [horders, List.mem_filter] at ho'
    simp [IsOrder, hid, hm] at ho'
  refine ⟨?_, fun j o hm => ?_, fun j t id' hj => ?_, ?_,
    fun j id' m' hj => ?_, fun j j' id' m' m'' hj hj' => ?_⟩
  · rw [standing_withdrew, ← hb.orders]
    rfl
  · have hm' : .entered j o ∈ h := by simpa using hm
    obtain ⟨t, ht, hr, hj⟩ := hb.entered j o hm'
    exact ⟨t, ht, hr, getElem?_concat.mpr (.inl hj)⟩
  · rcases getElem?_concat.mp hj with hj | ⟨-, he⟩
    · obtain ⟨o, hm, hid⟩ := hb.returned j t id' hj
      exact ⟨o, List.mem_append_left _ hm, hid⟩
    · cases he
  · rw [hids]
    exact hb.distinct
  · rw [hids]
    rcases getElem?_concat.mp hj with hj | ⟨-, he⟩
    · obtain ⟨hmem, hgone⟩ := hb.gone j id' m' hj
      exact ⟨hmem, fun o ho => hgone o (hsub ho)⟩
    · injection he with h1 h2 h3
      subst h1
      exact hnew (Except.ok.inj h3)
  · -- An identifier that was found before is not found again.
    have hfound {i : Nat} {n : String} (hi : d.calls[i]? = some (.cancelled id' n (.ok true)))
        (he : Stage.cancelled id m (.ok (cancel id m d.world.paper).1) =
          .cancelled id' m' (.ok true) ∨ Stage.cancelled id m (.ok (cancel id m d.world.paper).1) =
          .cancelled id' m'' (.ok true)) : False := by
      obtain ⟨-, hgone⟩ := hb.gone i id' n hi
      have heq : id = id' ∧ (cancel id m d.world.paper).1 = true := by
        rcases he with he | he <;>
        · injection he with h1 h2 h3
          exact ⟨h1, Except.ok.inj h3⟩
      obtain ⟨o, ho, hid, -⟩ := cancel_fst_iff.mp heq.2
      exact hgone o ho (hid.trans heq.1)
    rcases getElem?_concat.mp hj with hj | ⟨hk, he⟩
    · rcases getElem?_concat.mp hj' with hj' | ⟨-, he'⟩
      · exact hb.once j j' id' m' m'' hj hj'
      · exact (hfound hj (.inr he')).elim
    · rcases getElem?_concat.mp hj' with hj' | ⟨hk', -⟩
      · exact (hfound hj' (.inl he)).elim
      · exact hk.trans hk'.symm

/-! ## Runs -/

/-- No identifier is drawn that an order of before bears. -/
def DrawsFresh (d : Desk) (σ : Nat → Act) : Prop :=
  ∀ (n k : Nat) (id : String) (now : Timestamp), σ n = .enter k id now → id ∉ idsOf (d.history σ n)

theorem Booked.deals (hb : Booked d h) (hm : Deals d a deeds d')
    (hfresh : ∀ (k : Nat) (id : String) (now : Timestamp), a = .enter k id now → id ∉ idsOf h) :
    Booked d' (h ++ deeds) := by
  cases hm with
  | begins _ hs => exact hb.quiet rfl (succeeds_concat hs)
  | relinks | holds => exact hb.quiet rfl fun k s hs => Iff.rfl
  | goesOn hk hs _ hs' hw => exact hb.quiet (congrArg Prod.fst hw) (succeeds_set hk hs hs')
  | enters hk ho => exact hb.enters hk ho (hfresh _ _ _ rfl)
  | overflows hk ho => exact hb.quiet rfl (succeeds_set hk nofun nofun)
  | cancels id m now => exact hb.cancels id m
  | lists m now => exact hb.quiet rfl (succeeds_concat nofun)

theorem forall_concat {P : Stage → Prop} {l : List Stage} {s' : Stage} (hl : ∀ s ∈ l, P s)
    (hs : P s') : ∀ s ∈ l ++ [s'], P s :=
  List.forall_mem_append.mpr ⟨hl, List.forall_mem_singleton.mpr hs⟩

theorem forall_set {P : Stage → Prop} {l : List Stage} {s' : Stage} (hl : ∀ s ∈ l, P s)
    (hs : P s') : ∀ s ∈ l.set k s', P s := by
  intro s hm
  rcases List.mem_or_eq_of_mem_set hm with hm | rfl
  · exact hl s hm
  · exact hs

theorem Deals.leaves (hm : Deals d a deeds d') (hl : ∀ s ∈ d.calls, s.Leaves) :
    ∀ s ∈ d'.calls, s.Leaves := by
  cases hm with
  | begins hs => exact forall_concat hl hs
  | relinks | holds => exact hl
  | goesOn _ _ hs => exact forall_set hl hs
  | enters | overflows => exact forall_set hl trivial
  | cancels | lists => exact forall_concat hl trivial

theorem deals_after (c : Config.Exchange) (w : World) (now : Timestamp) (σ : Nat → Act) (n : Nat) :
    Deals ((opened c w now).after σ n) (σ n) (((opened c w now).after σ n).shown (σ n))
      ((opened c w now).after σ (n + 1)) := by
  suffices hl : ∀ s ∈ ((opened c w now).after σ n).calls, s.Leaves from act_deals hl (σ n)
  induction n with
  | zero => simp [after, opened]
  | succ n ih => exact (act_deals ih (σ n)).leaves ih

theorem books_init (c : Config.Exchange) (p : Paper) : (init c p).2.books = p.books := by
  unfold init
  split
  · rfl
  · dsimp only
    split
    · rfl
    · split <;> rfl

theorem leaves_initialise (c : Config.Exchange) (w : World) :
    (initialise c).run.Leaves World.books w := by
  have hinit : (Program.zoom paperSlot (.modifyGet (init c))).Leaves World.books w :=
    .read (.read (.write (books_init c w.paper) (.done _ _)))
  refine Call.leaves_bind (Call.leaves_lift hinit) fun r w => ?_
  refine Call.leaves_bind (Call.leaves_ofExcept r w) fun _ w => ?_
  refine Call.leaves_bind (Call.leaves_lift (leaves_look w)) fun p w => ?_
  exact Call.leaves_lift (.log (.done _ w))

theorem books_opened (c : Config.Exchange) (w : World) (now : Timestamp) :
    (opened c w now).world.books = ([], 0) :=
  (leaves_initialise c (adapter.fresh w)).run now

theorem booked_opened (c : Config.Exchange) (w : World) (now : Timestamp) :
    Booked (opened c w now) [] where
  orders := congrArg Prod.fst (books_opened c w now)
  entered := nofun
  returned := by simp [opened]
  distinct := List.nodup_nil
  gone := by simp [opened]
  once := by simp [opened]

theorem booked_after (c : Config.Exchange) (w : World) (now : Timestamp)
    (hf : DrawsFresh (opened c w now) σ) (n : Nat) :
    Booked ((opened c w now).after σ n) ((opened c w now).history σ n) := by
  induction n with
  | zero => exact booked_opened c w now
  | succ n ih => exact ih.deals (deals_after c w now σ n) (hf n)

/-! ## Identifiers that are drawn once -/

/-- Each identifier is drawn once. -/
def DrawsOnce (σ : Nat → Act) : Prop :=
  ∀ (m n k k' : Nat) (id : String) (now now' : Timestamp),
    σ m = .enter k id now → σ n = .enter k' id now' → m = n

theorem drawn {n : Nat} {id : String}
    (h : id ∈ idsOf (d.history σ n)) : ∃ m < n, ∃ k now, σ m = .enter k id now := by
  induction n with
  | zero => cases h
  | succ n ih =>
    rw [history, idsOf_append, List.mem_append] at h
    rcases h with h | h
    · obtain ⟨m, hm, hdraw⟩ := ih h
      exact ⟨m, Nat.lt_succ_of_lt hm, hdraw⟩
    · obtain ⟨o, ho, rfl⟩ := List.mem_map.mp h
      obtain ⟨j, hj⟩ := mem_entries.mp ho
      refine ⟨n, Nat.lt_succ_self n, ?_⟩
      cases ha : σ n with
      | enter k id now =>
        rw [ha, shown, entering] at hj
        split at hj
        · split at hj
          · next o' ho' =>
            cases List.mem_singleton.mp hj
            exact ⟨j, now, by rw [(of_orderOf ho').1]⟩
          · cases hj
        · cases hj
      | cancel id m now =>
        rw [ha] at hj
        simp [shown] at hj
      | place | ask | goOn | list | relink =>
        rw [ha] at hj
        cases hj

theorem drawsFresh_of_once (hd : DrawsOnce σ) : DrawsFresh d σ := by
  intro n k id now hn hm
  obtain ⟨m, hlt, k', now', hdraw⟩ := drawn hm
  exact absurd (hd m n k' k id now' now hdraw hn) hlt.ne

/-! ## Keeping the books -/

/-- How an exchange keeps its books, whatever its callers do. -/
structure KeepsBooks (d : Desk) (σ : Nat → Act) : Prop where
  /-- It holds exactly the orders that were entered and not withdrawn since by identifier and
  market, in the order in which they were entered. -/
  orders : ∀ n, (d.after σ n).orders = standing (d.history σ n)
  /-- No two orders that were ever entered share their identifier. -/
  distinct : ∀ n, (idsOf (d.history σ n)).Nodup
  /-- An order is entered by one call to place it, which has returned its identifier, and is the one
  that the call asked for. -/
  entered : ∀ (n k : Nat) (o : OpenOrder), .entered k o ∈ d.history σ n →
    (∃ t, Records t o ∧ (d.after σ n).calls[k]? = some (.placed t (.ok o.id))) ∧
    ∀ (k' : Nat) (t : Ticket), (d.after σ n).calls[k']? = some (.placed t (.ok o.id)) → k' = k
  /-- A call that has returned an identifier has entered an order under it. -/
  returned : ∀ (n k : Nat) (t : Ticket) (id : String),
    (d.after σ n).calls[k]? = some (.placed t (.ok id)) →
    ∃ o, .entered k o ∈ d.history σ n ∧ o.id = id ∧ Records t o
  /-- Every order on the books asks for something at some price, has nothing filled, and has the
  product as its total. -/
  sound : ∀ n, ∀ o ∈ (d.after σ n).orders, Sound o
  /-- An order can be entered unless its total overflows, and goes to the end of the books. -/
  enters : ∀ (n k : Nat) (id : String) (now : Timestamp) (t : Ticket) (ht : Acceptable t),
    σ n = .enter k id now → (d.after σ n).calls[k]? = some (.ready t ht) →
    (∃ o, orderOf t id now = .ok o ∧ (d.after σ (n + 1)).orders = (d.after σ n).orders ++ [o] ∧
      (d.after σ (n + 1)).calls = (d.after σ n).calls.set k (.placed t (.ok id))) ∨
    (∃ c, t.price.mul t.quantity = .error c ∧
      (d.after σ (n + 1)).orders = (d.after σ n).orders ∧
      (d.after σ (n + 1)).calls = (d.after σ n).calls.set k (.placed t (.error (.crash c))))
  /-- A list of open orders tells those of the market, and changes nothing. -/
  lists : ∀ (n : Nat) (m : String) (now : Timestamp), σ n = .list m now →
    d.after σ (n + 1) = { d.after σ n with
      calls := (d.after σ n).calls ++
        [.listed m (.ok ((d.after σ n).orders.filter (·.marketId == m)))] }
  /-- A withdrawal tells whether there was such an order, and takes off that one and no other. -/
  cancels : ∀ (n : Nat) (id m : String) (now : Timestamp), σ n = .cancel id m now →
    ∃ found, (d.after σ (n + 1)).calls = (d.after σ n).calls ++ [.cancelled id m (.ok found)] ∧
      (found = true ↔ ∃ o ∈ (d.after σ n).orders, o.id = id ∧ o.marketId = m) ∧
      (found = false → (d.after σ (n + 1)).orders = (d.after σ n).orders) ∧
      (found = true → ∃ before o behind, o.id = id ∧ o.marketId = m ∧
        (d.after σ n).orders = before ++ o :: behind ∧
        (d.after σ (n + 1)).orders = before ++ behind)
  /-- Of all withdrawals by one identifier, at most one finds an order. -/
  once : ∀ (n k k' : Nat) (id m m' : String),
    (d.after σ n).calls[k]? = some (.cancelled id m (.ok true)) →
    (d.after σ n).calls[k']? = some (.cancelled id m' (.ok true)) → k = k'

theorem Booked.sound (hb : Booked d h) (ho : o ∈ d.orders) : Sound o := by
  rw [hb.orders] at ho
  obtain ⟨k, hk⟩ := mem_entries.mp ((standing_sublist h).subset ho)
  obtain ⟨t, ht, hr, -⟩ := hb.entered k o hk
  exact hr.sound ht

theorem enter_ready {id : String} {now : Timestamp} {t : Ticket} {ht : Acceptable t}
    (hk : d.calls[k]? = some (.ready t ht)) :
    (∃ o, orderOf t id now = .ok o ∧ (d.enter k id now).orders = d.orders ++ [o] ∧
      (d.enter k id now).calls = d.calls.set k (.placed t (.ok id))) ∨
    (∃ c, t.price.mul t.quantity = .error c ∧ (d.enter k id now).orders = d.orders ∧
      (d.enter k id now).calls = d.calls.set k (.placed t (.error (.crash c)))) := by
  unfold enter
  rw [hk]
  dsimp only
  rw [run_enter]
  cases ho : orderOf t id now with
  | ok o => exact .inl ⟨o, rfl, rfl, rfl⟩
  | error c => exact .inr ⟨c, orderOf_eq_error_iff.mp ho, rfl, rfl⟩

/-- A list in which one element alone is filtered out falls apart there. -/
theorem filter_not_eq {id m : String} {l : List OpenOrder} (hn : (l.map (·.id)).Nodup)
    (ho : o ∈ l) (hi : IsOrder id m o) : ∃ before behind, l = before ++ o :: behind ∧
      (l.filter fun o => ¬ IsOrder id m o) = before ++ behind := by
  obtain ⟨before, behind, rfl⟩ := List.append_of_mem ho
  refine ⟨before, behind, rfl, ?_⟩
  rw [List.map_append, List.map_cons, List.nodup_append, List.nodup_cons] at hn
  have hkeep {l' : List OpenOrder} (hl : ∀ o' ∈ l', o'.id ≠ o.id) :
      (l'.filter fun o => ¬ IsOrder id m o) = l' := by
    rw [List.filter_eq_self]
    intro o' ho'
    simpa using fun hi' : IsOrder id m o' => hl o' ho' (hi'.1.trans hi.1.symm)
  rw [List.filter_append, List.filter_cons_of_neg (by simpa using hi), hkeep, hkeep]
  · intro o' ho' hid
    exact hn.2.1.1 (hid ▸ List.mem_map_of_mem ho')
  · intro o' ho' hid
    exact hn.2.2 _ (List.mem_map_of_mem ho') _ List.mem_cons_self hid

theorem Booked.cancel (hb : Booked d h) (id m : String) (now : Timestamp) :
    ∃ found, (d.act (.cancel id m now)).calls = d.calls ++ [.cancelled id m (.ok found)] ∧
      (found = true ↔ ∃ o ∈ d.orders, o.id = id ∧ o.marketId = m) ∧
      (found = false → (d.act (.cancel id m now)).orders = d.orders) ∧
      (found = true → ∃ before o behind, o.id = id ∧ o.marketId = m ∧
        d.orders = before ++ o :: behind ∧
        (d.act (.cancel id m now)).orders = before ++ behind) := by
  refine ⟨(Paper.cancel id m d.world.paper).1, rfl, cancel_fst_iff, fun hfound => ?_,
    fun hfound => ?_⟩
  · show (d.orders.filter fun o => ¬ IsOrder id m o) = d.orders
    rw [List.filter_eq_self]
    intro o ho
    have hno : ¬ ∃ o ∈ d.orders, IsOrder id m o := by
      rw [← Bool.not_eq_true] at hfound
      exact mt cancel_fst_iff.mpr hfound
    simpa using fun hi : IsOrder id m o => hno ⟨o, ho, hi⟩
  · obtain ⟨o, ho, hi⟩ := cancel_fst_iff.mp hfound
    have hsub : (d.orders.map (·.id)).Sublist (idsOf h) := by
      rw [hb.orders]
      exact (standing_sublist h).map _
    obtain ⟨before, behind, hl, hf⟩ := filter_not_eq (hb.distinct.sublist hsub) ho hi
    exact ⟨before, o, behind, hi.1, hi.2, hl, hf⟩

theorem keepsBooks_of_fresh (c : Config.Exchange) (w : World) (now : Timestamp)
    (hf : DrawsFresh (opened c w now) σ) : KeepsBooks (opened c w now) σ where
  orders n := (booked_after c w now hf n).orders
  distinct n := (booked_after c w now hf n).distinct
  entered n k o ho := by
    have hbn := booked_after c w now hf n
    obtain ⟨t, -, hr, hk⟩ := hbn.entered k o ho
    refine ⟨⟨t, hr, hk⟩, fun k' t' hk' => ?_⟩
    obtain ⟨o', ho', hid⟩ := hbn.returned k' t' _ hk'
    exact (eq_of_nodup_idsOf hbn.distinct ho' ho hid).1
  returned n k t id hk := by
    have hbn := booked_after c w now hf n
    obtain ⟨o, ho, hid⟩ := hbn.returned k t id hk
    obtain ⟨t', -, hr, hk'⟩ := hbn.entered k o ho
    cases hk.symm.trans hk'
    exact ⟨o, ho, rfl, hr⟩
  sound n o ho := (booked_after c w now hf n).sound ho
  enters n k id t₀ t ht hn hk := by
    rw [after, hn]
    exact enter_ready hk
  lists n m t₀ hn := by
    rw [after, hn]
    rfl
  cancels n id m t₀ hn := by
    rw [after, hn]
    exact (booked_after c w now hf n).cancel id m t₀
  once n k k' id m m' hk hk' := (booked_after c w now hf n).once k k' id m m' hk hk'

/-- **A paper exchange keeps its books.** Whatever its callers do, in whatever order they take their
turns, and whatever its feed answers: if each identifier is drawn once, then an exchange that has
just been set up holds at all times exactly the orders that were entered and not withdrawn since. -/
theorem keepsBooks_after (c : Config.Exchange) (w : World) (now : Timestamp)
    (hd : DrawsOnce σ) : KeepsBooks (opened c w now) σ :=
  keepsBooks_of_fresh c w now (drawsFresh_of_once hd)

/-! ## Numbered orders -/

/-- The identifiers drawn are those of the exchange itself, which numbers its orders. -/
def DrawsNumbers (d : Desk) (σ : Nat → Act) : Prop :=
  ∀ (n k : Nat) (id : String) (now : Timestamp), σ n = .enter k id now →
    id = orderId ((d.after σ n).world.paper.issued + 1)

theorem orderId_inj {m n : Nat} : orderId m = orderId n ↔ m = n := by
  refine ⟨fun h => ?_, congrArg orderId⟩
  simp only [orderId] at h
  rw [String.append_right_inj] at h
  have hdigits : Nat.toDigits 10 m = Nat.toDigits 10 n := by
    rw [← Nat.toList_repr, ← Nat.toList_repr]
    exact congrArg String.toList h
  calc m = Nat.ofDigitChars 10 (Nat.toDigits 10 m) 0 :=
        (Nat.ofDigitChars_toDigits (by decide) (by decide)).symm
    _ = Nat.ofDigitChars 10 (Nat.toDigits 10 n) 0 := by rw [hdigits]
    _ = n := Nat.ofDigitChars_toDigits (by decide) (by decide)

/-- All identifiers so far are numbers of orders that were placed. -/
def Numbered (d : Desk) (h : List Deed) : Prop :=
  ∀ id ∈ idsOf h, ∃ j ≤ d.world.paper.issued, id = orderId j

theorem Numbered.deals (hn : Numbered d h) (hm : Deals d a deeds d')
    (hdraw : ∀ (k : Nat) (id : String) (now : Timestamp), a = .enter k id now →
      id = orderId (d.world.paper.issued + 1)) : Numbered d' (h ++ deeds) := by
  intro id hid
  rw [idsOf_append, List.mem_append] at hid
  have hold (hi : d.world.paper.issued ≤ d'.world.paper.issued) (hid : id ∈ idsOf h) :
      ∃ j ≤ d'.world.paper.issued, id = orderId j := by
    obtain ⟨j, hj, rfl⟩ := hn id hid
    exact ⟨j, hj.trans hi, rfl⟩
  cases hm with
  | begins | relinks | holds | overflows | lists =>
    exact hold (Nat.le_refl _) (hid.resolve_right List.not_mem_nil)
  | goesOn _ _ _ _ hw =>
    exact hold (congrArg Prod.snd hw).ge (hid.resolve_right List.not_mem_nil)
  | cancels => exact hold (Nat.le_refl _) (hid.resolve_right List.not_mem_nil)
  | enters hk ho =>
    rcases hid with hid | hid
    · exact hold (Nat.le_succ _) hid
    · refine ⟨_, Nat.le_refl _, ?_⟩
      calc id = _ := List.mem_singleton.mp hid
        _ = _ := (of_orderOf ho).1
        _ = _ := hdraw _ _ _ rfl

/-- **The numbers of an exchange are fresh**, so it keeps its books by itself. -/
theorem keepsBooks_of_numbers (c : Config.Exchange) (w : World) (now : Timestamp)
    (hd : DrawsNumbers (opened c w now) σ) : KeepsBooks (opened c w now) σ := by
  refine keepsBooks_of_fresh c w now fun n k id t₀ hn hm => ?_
  have hnum : Numbered ((opened c w now).after σ n) ((opened c w now).history σ n) := by
    clear hn hm
    induction n with
    | zero => exact nofun
    | succ n ih => exact ih.deals (deals_after c w now σ n) (hd n)
  obtain ⟨j, hj, hid⟩ := hnum id hm
  rw [hd n k id t₀ hn, orderId_inj] at hid
  omega

end Desk

end Paper

/-! ## A rehearsed desk -/

namespace Rehearsed

open Paper

def found? : Stage → Option Bool
  | .cancelled _ _ (.ok found) => some found
  | _ => none

/-- A paper exchange that knows the price of one market. -/
def shop : Config.Exchange :=
  { name := "Paper", adapter := "paper", other := .ofList [("price.btcusd", "1000")] }

def bid : Ticket :=
  { marketId := "btcusd", side := .buy, quantity := .one, price := .ofNat 990 }

def ask : Ticket :=
  { marketId := "btcusd", side := .sell, quantity := .ofNat 7, price := .ofNat 1100 }

def dawn : Timestamp := { seconds := 0, nanos := 0 }

/-- Two orders are placed at the same time, and the second one is entered first. It is withdrawn
from the wrong market, then from its own, and then once more. -/
def bustle : List Act :=
  [.place bid, .place ask, .goOn 1 dawn, .goOn 0 dawn, .enter 1 "sold" dawn, .enter 0 "bought" dawn,
    .cancel "sold" "ethusd" dawn, .cancel "sold" "btcusd" dawn, .cancel "sold" "btcusd" dawn]

/-- After that, the orders of the market are listed again and again. -/
def bustling (n : Nat) : Act := bustle.getD n (.list "btcusd" dawn)

theorem drawsOnce_bustling : Desk.DrawsOnce bustling := by
  have henter {n k : Nat} {id : String} {now : Timestamp} (h : bustling n = .enter k id now) :
      (n = 4 ∧ id = "sold") ∨ (n = 5 ∧ id = "bought") := by
    match n with
    | 0 | 1 | 2 | 3 | 6 | 7 | 8 => cases h
    | 4 | 5 =>
      cases h
      simp
    | n + 9 => cases h
  intro m n k k' id now now' hm hn
  rcases henter hm with ⟨rfl, rfl⟩ | ⟨rfl, rfl⟩
  · rcases henter hn with ⟨rfl, -⟩ | ⟨-, h⟩
    · rfl
    · exact absurd h (by decide)
  · rcases henter hn with ⟨-, h⟩ | ⟨rfl, -⟩
    · exact absurd h (by decide)
    · rfl

theorem keepsBooks_rehearsed :
    let d := Desk.opened shop {} dawn
    Desk.DrawsOnce bustling ∧ d.KeepsBooks bustling ∧
      ((d.after bustling 6).orders.map (·.id) = ["sold", "bought"]) ∧
      ((d.after bustling 9).orders.map (·.id) = ["bought"]) ∧
      ((d.after bustling 9).calls.filterMap found? = [false, true, false]) :=
  ⟨drawsOnce_bustling, Desk.keepsBooks_after shop {} dawn drawsOnce_bustling,
    by decide +kernel, by decide +kernel, by decide +kernel⟩

end Rehearsed

end TradingBot
