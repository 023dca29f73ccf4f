import TradingBot.Proofs.Answers

/-!
# What the settings seed

**Seeds** (`Paper.Seed`). What a setting can seed: a fee, funds of a currency, or the price of a
market. Settings are read in this order, and those for funds and for prices by their keys.

**Offences** (`Paper.Offends`). What it takes for a setting not to be accepted, whatever stands in
the others, and the error that is due.

**Reading** (`Paper.amounts_cases`). The amounts under one head are those of all settings whose
key begins with it, unless one of them offends. The first one in the order of the entries is then
the first one by key, as the entries are sorted.

**Theorem (`Paper.init_seeds_or_first_offence`).** A new exchange is initialised exactly if no
setting offends. It then has the seeded amounts and no others, and at all later times it charges the
configured fees, or the default ones. Otherwise it reports the first offence.
-/

namespace TradingBot.Paper

/-! ## Settings -/

/-- The number that a setting tells, if it tells one. -/
def numberOf (raw : String) : Option Decimal := Decimal.parse (Text.trim raw)

/-- A part of an amount that is not all of it. -/
def IsPart (d : Decimal) : Prop := 0 ≤ d.value ∧ d.value < 1

theorem not_outside_iff {d : Decimal} : ¬ (d < .zero ∨ .one ≤ d) ↔ IsPart d := by
  rw [not_or, Decimal.not_lt, Decimal.not_le, Decimal.zero_le_iff, Decimal.lt_iff_value_lt,
    Decimal.value_one, IsPart]

/-- What a setting can seed. -/
inductive Seed where
  | buyFee
  | sellFee
  | balance (currency : String)
  | price (marketId : String)

namespace Seed

def key : Seed → String
  | buyFee => Fees.buyKey
  | sellFee => Fees.sellKey
  | balance currency => balanceKey ++ currency
  | price marketId => priceKey ++ marketId

def stage : Seed → Nat
  | buyFee => 0
  | sellFee => 1
  | balance _ => 2
  | price _ => 3

def IsFee : Seed → Prop
  | buyFee | sellFee => True
  | balance _ | price _ => False

/-- Seeds come by their sort, and by their keys within one. -/
instance : LE Seed := ⟨fun s s' => s.stage < s'.stage ∨ s.stage = s'.stage ∧ s.key ≤ s'.key⟩

theorem le_def {s s' : Seed} :
    s ≤ s' ↔ s.stage < s'.stage ∨ s.stage = s'.stage ∧ s.key ≤ s'.key := Iff.rfl

theorem eq_of_stage_of_key {s s' : Seed} (hstage : s.stage = s'.stage) (hkey : s.key = s'.key) :
    s = s' := by
  cases s <;> cases s' <;> simp_all [stage, key]

/-- There is one setting for each fee. -/
theorem eq_of_stage_of_isFee {s s' : Seed} (hfee : s.IsFee) (h : s'.stage = s.stage) : s' = s := by
  cases s <;> cases s' <;> simp_all [stage, IsFee]

theorem eq_of_le_of_le {s s' : Seed} (h : s ≤ s') (h' : s' ≤ s) : s = s' := by
  rw [le_def] at h h'
  rcases h with h | ⟨hstage, hkey⟩
  · omega
  · rcases h' with h' | ⟨-, hkey'⟩
    · omega
    · exact eq_of_stage_of_key hstage (String.le_antisymm hkey hkey')

end Seed

/-! ## Offences -/

/-- If there is such a setting, it tells a number, which is a part if it is to be a fee. -/
def Accepted (settings : Dict String) (s : Seed) : Prop :=
  ∀ raw, settings.get? s.key = some raw → ∃ d, numberOf raw = some d ∧ (s.IsFee → IsPart d)

/-- All settings are accepted. -/
def Readable (settings : Dict String) : Prop := ∀ s, Accepted settings s

/-- There is such a setting, it is not accepted, and this is to be reported. -/
inductive Offends (settings : Dict String) : Seed → ApiError → Prop
  | fee {s : Seed} {raw : String} : s.IsFee → settings.get? s.key = some raw →
      numberOf raw = none → Offends settings s (.api s!"Invalid {s.key} '{raw}' in otherConfig")
  | noPart {s : Seed} {raw : String} {fee : Decimal} : s.IsFee →
      settings.get? s.key = some raw → numberOf raw = some fee → ¬ IsPart fee →
      Offends settings s (.api s!"{s.key} must be a fraction in [0, 1), got {fee.render}")
  | amount {s : Seed} {raw : String} : ¬ s.IsFee → settings.get? s.key = some raw →
      numberOf raw = none → Offends settings s (.api s!"Invalid value '{raw}' for {s.key}")

/-- The error that is due for the first setting that is not accepted. -/
def FirstOffence (settings : Dict String) (e : ApiError) : Prop :=
  ∃ s, Offends settings s e ∧ ∀ s' e', Offends settings s' e' → s ≤ s'

variable {settings : Dict String} {s : Seed} {e e' : ApiError}

theorem Offends.not_accepted (h : Offends settings s e) : ¬ Accepted settings s := by
  intro ha
  cases h with
  | fee _ hraw hnone | amount _ hraw hnone =>
    obtain ⟨d, hd, -⟩ := ha _ hraw
    cases hnone.symm.trans hd
  | noPart hfee hraw hsome hout =>
    obtain ⟨d, hd, hpart⟩ := ha _ hraw
    cases hsome.symm.trans hd
    exact hout (hpart hfee)

theorem Offends.unique (h : Offends settings s e) (h' : Offends settings s e') : e = e' := by
  cases h with
  | fee hfee hraw hn =>
    cases h' with
    | fee _ hraw' _ =>
      cases hraw.symm.trans hraw'
      rfl
    | noPart _ hraw' hn' _ =>
      cases hraw.symm.trans hraw'
      cases hn.symm.trans hn'
    | amount hno _ _ => exact absurd hfee hno
  | noPart hfee hraw hn _ =>
    cases h' with
    | fee _ hraw' hn' =>
      cases hraw.symm.trans hraw'
      cases hn.symm.trans hn'
    | noPart _ hraw' hn' _ =>
      cases hraw.symm.trans hraw'
      cases hn.symm.trans hn'
      rfl
    | amount hno _ _ => exact absurd hfee hno
  | amount hno hraw hn =>
    cases h' with
    | fee hfee _ _ | noPart hfee _ _ _ => exact absurd hfee hno
    | amount _ hraw' _ =>
      cases hraw.symm.trans hraw'
      rfl

theorem FirstOffence.unique (h : FirstOffence settings e) (h' : FirstOffence settings e') :
    e = e' := by
  obtain ⟨s, hs, hfirst⟩ := h
  obtain ⟨s', hs', hfirst'⟩ := h'
  obtain rfl := Seed.eq_of_le_of_le (hfirst s' e' hs') (hfirst' s e hs)
  exact hs.unique hs'

theorem FirstOffence.not_readable (h : FirstOffence settings e) : ¬ Readable settings := by
  obtain ⟨s, hs, -⟩ := h
  exact fun hread => hs.not_accepted (hread s)

theorem FirstOffence.exists_detail (h : FirstOffence settings e) : ∃ detail, e = .api detail := by
  obtain ⟨s, hs, -⟩ := h
  cases hs <;> exact ⟨_, rfl⟩

/-- An offence is the first one if none is of an earlier sort, nor has an earlier key. -/
theorem Offends.first (h : Offends settings s e)
    (hearlier : ∀ s', s'.stage < s.stage → Accepted settings s')
    (hkey : ∀ s' e', Offends settings s' e' → s'.stage = s.stage → s.key ≤ s'.key) :
    FirstOffence settings e := by
  refine ⟨s, h, fun s' e' hs' => Seed.le_def.mpr ?_⟩
  rcases Nat.lt_trichotomy s.stage s'.stage with hlt | heq | hgt
  · exact .inl hlt
  · exact .inr ⟨heq, hkey s' e' hs' heq.symm⟩
  · exact absurd (hearlier s' hgt) hs'.not_accepted

/-- An offending fee is the first offender if no setting of an earlier sort offends. -/
theorem Offends.first_of_isFee (h : Offends settings s e) (hfee : s.IsFee)
    (hearlier : ∀ s', s'.stage < s.stage → Accepted settings s') : FirstOffence settings e := by
  refine h.first hearlier fun s' e' _ hstage => ?_
  obtain rfl := Seed.eq_of_stage_of_isFee hfee hstage
  exact String.le_refl _

/-- An offending amount is the first offender if none with an earlier key offends either. -/
theorem Offends.first_of_seed {seed : String → Seed} {name : String}
    (h : Offends settings (seed name) e)
    (hearlier : ∀ s', s'.stage < (seed name).stage → Accepted settings s')
    (hsort : ∀ s', s'.stage = (seed name).stage → ∃ name', s' = seed name')
    (hkey : ∀ name' e', Offends settings (seed name') e' → (seed name).key ≤ (seed name').key) :
    FirstOffence settings e := by
  refine h.first hearlier fun s' e' hs' hstage => ?_
  obtain ⟨name', rfl⟩ := hsort s' hstage
  exact hkey name' e' hs'

/-! ## Fees -/

theorem readOne_cases (settings : Dict String) (hs : s.IsFee) :
    (∃ e, Fees.readOne settings s.key = .error e ∧ Offends settings s e) ∨
      Fees.readOne settings s.key = .ok ((settings.get? s.key).bind numberOf) ∧
        Accepted settings s := by
  unfold Fees.readOne
  cases hraw : settings.get? s.key with
  | none => exact .inr ⟨rfl, fun raw h => by cases hraw.symm.trans h⟩
  | some raw =>
    dsimp only [Option.bind_some]
    cases hn : Decimal.parse (Text.trim raw) with
    | none => exact .inl ⟨_, rfl, .fee hs hraw hn⟩
    | some fee =>
      dsimp only
      by_cases hout : fee < .zero ∨ .one ≤ fee
      · rw [if_pos hout]
        exact .inl ⟨_, rfl, .noPart hs hraw hn fun hpart => not_outside_iff.mpr hpart hout⟩
      · rw [if_neg hout]
        refine .inr ⟨hn ▸ rfl, fun raw' h => ?_⟩
        cases hraw.symm.trans h
        exact ⟨fee, hn, fun _ => not_outside_iff.mp hout⟩

/-! ## Amounts -/

theorem behind?_eq_some_iff {head key name : String} :
    Text.behind? head key = some name ↔ key = head ++ name := by
  rw [Text.behind?, Option.map_eq_some_iff]
  simp only [Text.behindList?_eq_some]
  constructor
  · rintro ⟨rest, hrest, rfl⟩
    rw [← String.toList_inj, hrest]
    simp
  · rintro rfl
    exact ⟨name.toList, by simp, by simp⟩

variable {head name : String} {l before behind : List (String × String)}

/-- The amount that an entry gives under a head, with the rest of its key. -/
def amountUnder (head : String) (entry : String × String) : Option (String × Decimal) :=
  (Text.behind? head entry.1).bind fun name => (numberOf entry.2).map (name, ·)

/-- Whether an entry under a head tells no number. -/
def failsUnder (head : String) (entry : String × String) : Bool :=
  (Text.behind? head entry.1).isSome && (numberOf entry.2).isNone

theorem failsUnder_iff {entry : String × String} : failsUnder head entry ↔
    ∃ name, entry.1 = head ++ name ∧ numberOf entry.2 = none := by
  rw [failsUnder, Bool.and_eq_true, Option.isSome_iff_exists, Option.isNone_iff_eq_none]
  simp only [behind?_eq_some_iff, exists_and_right]

theorem failsUnder_of {raw : String} (hn : numberOf raw = none) :
    failsUnder head (head ++ name, raw) :=
  failsUnder_iff.mpr ⟨name, rfl, hn⟩

theorem readAmounts_cons (key raw : String) : readAmounts head ((key, raw) :: l) =
    match Text.behind? head key with
    | none => readAmounts head l
    | some name =>
      match numberOf raw with
      | none => .error (.api s!"Invalid value '{raw}' for {head ++ name}")
      | some amount => (readAmounts head l).map ((name, amount) :: ·) := by
  have hread : Decimal.parse (Text.trim raw) = numberOf raw := rfl
  rw [readAmounts, hread]
  cases Text.behind? head key with
  | none => rfl
  | some name =>
    cases numberOf raw with
    | none => simp [toString, String.append_assoc]
    | some amount => cases readAmounts head l <;> rfl

theorem readAmounts_of_forall (h : ∀ entry ∈ l, ¬ failsUnder head entry) :
    readAmounts head l = .ok (l.filterMap (amountUnder head)) := by
  induction l with
  | nil => rfl
  | cons entry l ih =>
    obtain ⟨key, raw⟩ := entry
    obtain ⟨hentry, hl⟩ := List.forall_mem_cons.mp h
    rw [readAmounts_cons, ih hl]
    cases hb : Text.behind? head key with
    | none =>
      have hnone : amountUnder head (key, raw) = none := by simp [amountUnder, hb]
      rw [List.filterMap_cons_none hnone]
    | some name =>
      obtain rfl := behind?_eq_some_iff.mp hb
      cases hn : numberOf raw with
      | none => exact absurd (failsUnder_of hn) hentry
      | some amount =>
        have hamount : amountUnder head (head ++ name, raw) = some (name, amount) := by
          simp [amountUnder, hb, hn]
        rw [List.filterMap_cons_some hamount]
        rfl

theorem readAmounts_of_first {raw : String} (hbefore : ∀ entry ∈ before, ¬ failsUnder head entry)
    (hraw : numberOf raw = none) : readAmounts head (before ++ (head ++ name, raw) :: behind) =
      .error (.api s!"Invalid value '{raw}' for {head ++ name}") := by
  induction before with
  | nil =>
    have hb : Text.behind? head (head ++ name) = some name := behind?_eq_some_iff.mpr rfl
    rw [List.nil_append, readAmounts_cons, hb]
    dsimp only
    rw [hraw]
  | cons entry before ih =>
    obtain ⟨key, raw'⟩ := entry
    obtain ⟨hentry, hbefore⟩ := List.forall_mem_cons.mp hbefore
    rw [List.cons_append, readAmounts_cons, ih hbefore]
    cases hb : Text.behind? head key with
    | none => rfl
    | some name' =>
      obtain rfl := behind?_eq_some_iff.mp hb
      cases hn : numberOf raw' with
      | none => exact absurd (failsUnder_of hn) hentry
      | some amount => rfl

theorem mem_amountUnder_iff {amount : Decimal} : (name, amount) ∈ l.filterMap (amountUnder head) ↔
    ∃ raw, (head ++ name, raw) ∈ l ∧ numberOf raw = some amount := by
  rw [List.mem_filterMap]
  constructor
  · rintro ⟨⟨key, raw⟩, hmem, hamount⟩
    obtain ⟨name', hb, hn⟩ := Option.bind_eq_some_iff.mp hamount
    obtain ⟨amount', hn, he⟩ := Option.map_eq_some_iff.mp hn
    cases he
    cases behind?_eq_some_iff.mp hb
    exact ⟨raw, hmem, hn⟩
  · rintro ⟨raw, hmem, hn⟩
    have hb : Text.behind? head (head ++ name) = some name := behind?_eq_some_iff.mpr rfl
    exact ⟨_, hmem, by simp [amountUnder, hb, hn]⟩

theorem nodup_amountUnder (head : String) (hn : (l.map (·.1)).Nodup) :
    ((l.filterMap (amountUnder head)).map (·.1)).Nodup := by
  induction l with
  | nil => exact List.nodup_nil
  | cons entry l ih =>
    rw [List.map_cons, List.nodup_cons] at hn
    cases ha : amountUnder head entry with
    | none =>
      rw [List.filterMap_cons_none ha]
      exact ih hn.2
    | some named =>
      obtain ⟨name, amount⟩ := named
      rw [List.filterMap_cons_some ha, List.map_cons, List.nodup_cons]
      refine ⟨fun hsame => hn.1 ?_, ih hn.2⟩
      obtain ⟨⟨name', amount'⟩, hmem, hname⟩ := List.mem_map.mp hsame
      obtain rfl : name' = name := hname
      obtain ⟨raw, hraw, -⟩ := mem_amountUnder_iff.mp hmem
      obtain ⟨name'', hb, hn'⟩ := Option.bind_eq_some_iff.mp ha
      obtain ⟨d, -, he⟩ := Option.map_eq_some_iff.mp hn'
      cases he
      rw [behind?_eq_some_iff.mp hb]
      exact List.mem_map.mpr ⟨_, hraw, rfl⟩

/-- What is found under a name is what the setting under the whole key tells. -/
theorem get?_amountUnder (settings : Dict String) (head name : String) :
    (Dict.ofList (settings.entries.filterMap (amountUnder head))).get? name =
      (settings.get? (head ++ name)).bind numberOf := by
  have hn := nodup_amountUnder head settings.nodup_keys
  have hreverse : ((settings.entries.filterMap (amountUnder head)).reverse.map (·.1)).Nodup := by
    rw [List.map_reverse]
    exact List.nodup_reverse.mpr hn
  apply Option.ext
  intro amount
  rw [Dict.get?_ofList, lookup_eq_some_iff_mem hreverse, List.mem_reverse, mem_amountUnder_iff,
    Option.bind_eq_some_iff]
  simp only [Dict.get?_eq_some_iff]

/-- **The amounts under a head** are read if all their settings are accepted. Otherwise the setting
with the first key that is not is to be reported. -/
theorem amounts_cases (settings : Dict String) (seed : String → Seed) {head : String}
    (hkey : ∀ name, (seed name).key = head ++ name) (hno : ∀ name, ¬ (seed name).IsFee) :
    (∃ e name, amounts settings head = .error e ∧ Offends settings (seed name) e ∧
        ∀ name' e', Offends settings (seed name') e' → (seed name).key ≤ (seed name').key) ∨
      (∃ d, amounts settings head = .ok d ∧
        ∀ name, d.get? name = (settings.get? (head ++ name)).bind numberOf) ∧
      ∀ name, Accepted settings (seed name) := by
  have hfails {name raw : String} (hraw : settings.get? (head ++ name) = some raw)
      (hn : numberOf raw = none) : ∃ entry ∈ settings.entries, failsUnder head entry :=
    ⟨_, Dict.get?_eq_some_iff.mp hraw, failsUnder_of hn⟩
  -- The reader stops at the first entry under the head that tells no number. As entries are sorted
  -- by key, this is also the offender with the first key.
  cases hfind : settings.entries.find? (failsUnder head) with
  | none =>
    rw [List.find?_eq_none] at hfind
    refine .inr ⟨⟨_, ?_, get?_amountUnder settings head⟩, fun name raw hraw => ?_⟩
    · rw [amounts, readAmounts_of_forall hfind]
      rfl
    · rw [hkey] at hraw
      cases hn : numberOf raw with
      | none =>
        obtain ⟨entry, hentry, hf⟩ := hfails hraw hn
        exact absurd hf (hfind entry hentry)
      | some d => exact ⟨d, rfl, fun hfee => absurd hfee (hno name)⟩
  | some entry =>
    obtain ⟨hentry, before, behind, hsplit, hbefore⟩ := List.find?_eq_some_iff_append.mp hfind
    obtain ⟨name, hname, hn⟩ := failsUnder_iff.mp hentry
    obtain ⟨key, raw⟩ := entry
    obtain rfl : key = head ++ name := hname
    have hbefore : ∀ entry ∈ before, ¬ failsUnder head entry := by simpa using hbefore
    have hraw : settings.get? (seed name).key = some raw := by
      rw [hkey, Dict.get?_eq_some_iff, hsplit]
      exact List.mem_append_right before List.mem_cons_self
    have hoffends := Offends.amount (hno name) hraw hn
    refine .inl ⟨_, name, ?_, hoffends, fun name' e' h' => ?_⟩
    · rw [amounts, hsplit, readAmounts_of_first hbefore hn, hkey]
      rfl
    · -- Another offender is no entry before the first one that fails, and the keys ascend.
      rw [hkey, hkey]
      cases h' with
      | fee hfee | noPart hfee => exact absurd hfee (hno name')
      | amount _ hraw' hn' =>
        rw [hkey, Dict.get?_eq_some_iff, hsplit, List.mem_append] at hraw'
        rcases hraw' with hmem | hmem
        · exact absurd (failsUnder_of hn') (hbefore _ hmem)
        · rcases List.mem_cons.mp hmem with he | hmem
          · have hsame : head ++ name' = head ++ name := congrArg Prod.fst he
            exact hsame ▸ String.le_refl _
          · have hsorted := settings.sorted
            rw [hsplit, List.pairwise_append, List.pairwise_cons] at hsorted
            exact Std.le_of_lt (hsorted.2.1.1 _ hmem)

/-! ## Seeding -/

/-- The exchange has what the settings seed, and nothing else. -/
structure Seeds (settings : Dict String) (p : Paper) : Prop where
  available : ∀ currency,
    p.available.get? currency = (settings.get? (balanceKey ++ currency)).bind numberOf
  prices : ∀ marketId, p.prices.get? marketId = (settings.get? (priceKey ++ marketId)).bind numberOf
  fees : p.fees =
    { buy := (settings.get? Fees.buyKey).bind numberOf
      sell := (settings.get? Fees.sellKey).bind numberOf }

/-- The fees are read if they are accepted; otherwise the first one that is not is reported. -/
theorem fees_cases (settings : Dict String) :
    (∃ e, Fees.read settings = .error e ∧ FirstOffence settings e) ∨
      Fees.read settings = .ok { buy := (settings.get? Fees.buyKey).bind numberOf
                                 sell := (settings.get? Fees.sellKey).bind numberOf } ∧
        Accepted settings .buyFee ∧ Accepted settings .sellFee := by
  have hread : Fees.read settings = (do
      let buy ← Fees.readOne settings Seed.buyFee.key
      let sell ← Fees.readOne settings Seed.sellFee.key
      return { buy, sell }) := rfl
  rw [hread]
  rcases readOne_cases settings (s := .buyFee) trivial with ⟨e, he, ho⟩ | ⟨hbuy, hb⟩
  · rw [he]
    exact .inl ⟨e, rfl, ho.first_of_isFee trivial fun s' hs' => absurd hs' (Nat.not_lt_zero _)⟩
  · rw [hbuy]
    rcases readOne_cases settings (s := .sellFee) trivial with ⟨e, he, ho⟩ | ⟨hsell, hs⟩
    · rw [he]
      refine .inl ⟨e, rfl, ho.first_of_isFee trivial fun s' hs' => ?_⟩
      rw [Seed.eq_of_stage_of_isFee (s := .buyFee) trivial (Nat.lt_one_iff.mp hs')]
      exact hb
    · rw [hsell]
      exact .inr ⟨rfl, hb, hs⟩

/-- **A new exchange** has what its settings seed, or the first offence among them is reported. -/
theorem init_cases (c : Config.Exchange) :
    (∃ e, (init c {}).1 = .error e ∧ FirstOffence c.other e) ∨
      (init c {}).1 = .ok () ∧ Readable c.other ∧ Seeds c.other (seeded c) := by
  -- Fees, funds and prices are read in this order. An offender in one group ends the reading, and
  -- by then all groups before it are known to be accepted.
  unfold seeded init
  rcases fees_cases c.other with ⟨e, he, hfirst⟩ | ⟨hfees, hbuy, hsell⟩
  · rw [he]
    exact .inl ⟨e, rfl, hfirst⟩
  rw [hfees]
  dsimp only
  have hbalances := amounts_cases c.other Seed.balance (fun _ => rfl) fun _ => id
  rcases hbalances with ⟨e, name, he, ho, hkey⟩ | ⟨⟨available, ha, hget⟩, hbalances⟩
  · rw [he]
    refine .inl ⟨e, rfl, ho.first_of_seed (fun s' hs' => ?_) (fun s' hs' => ?_) hkey⟩
    · cases s' with
      | buyFee => exact hbuy
      | sellFee => exact hsell
      | balance | price => simp [Seed.stage] at hs'
    · cases s' with
      | balance currency => exact ⟨currency, rfl⟩
      | buyFee | sellFee | price => simp [Seed.stage] at hs'
  rw [ha]
  dsimp only
  have hprices := amounts_cases c.other Seed.price (fun _ => rfl) fun _ => id
  rcases hprices with ⟨e, name, he, ho, hkey⟩ | ⟨⟨prices, hp, hget'⟩, hprices⟩
  · rw [he]
    refine .inl ⟨e, rfl, ho.first_of_seed (fun s' hs' => ?_) (fun s' hs' => ?_) hkey⟩
    · cases s' with
      | buyFee => exact hbuy
      | sellFee => exact hsell
      | balance currency => exact hbalances currency
      | price => simp [Seed.stage] at hs'
    · cases s' with
      | price marketId => exact ⟨marketId, rfl⟩
      | buyFee | sellFee | balance => simp [Seed.stage] at hs'
  rw [hp]
  refine .inr ⟨rfl, fun s => ?_, hget, hget', rfl⟩
  cases s with
  | buyFee => exact hbuy
  | sellFee => exact hsell
  | balance currency => exact hbalances currency
  | price marketId => exact hprices marketId

/-! ## Fees at all times -/

/-- The fee that a setting configures, or the default one. -/
def feeOr (settings : Dict String) (key : String) : Decimal :=
  ((settings.get? key).bind numberOf).getD defaultFee

theorem isPart_defaultFee : IsPart defaultFee := by
  constructor <;> norm_num [defaultFee, Decimal.value, pow10]

theorem Accepted.isPart_feeOr (h : Accepted settings s) (hs : s.IsFee) :
    IsPart (feeOr settings s.key) := by
  unfold feeOr
  cases hraw : settings.get? s.key with
  | none => exact isPart_defaultFee
  | some raw =>
    obtain ⟨fee, hfee, hpart⟩ := h raw hraw
    rw [Option.bind_some, hfee]
    exact hpart hs

theorem Seeds.buyFee {p : Paper} (h : Seeds settings p) :
    p.buyFee = feeOr settings Fees.buyKey := by
  rw [Paper.buyFee, h.fees, feeOr]

theorem Seeds.sellFee {p : Paper} (h : Seeds settings p) :
    p.sellFee = feeOr settings Fees.sellKey := by
  rw [Paper.sellFee, h.fees, feeOr]

def World.Charges (buy sell : Decimal) (w : World) : Prop :=
  w.paper.buyFee = buy ∧ w.paper.sellFee = sell

/-- The answer to a query about a fee is the fee. -/
def Query.TellsFee (buy sell : Decimal) : Query → Except Fault Answer → Prop
  | .buyFee _, r => r = .ok (.amount buy)
  | .sellFee _, r => r = .ok (.amount sell)
  | .price _, _ | .orderBook _, _ | .ticker _, _ | .balances, _ | .setPrice _ _, _ => True

variable {buy sell : Decimal}

theorem keeps_charges : Keeps (World.Charges buy sell) fun _ => True where
  quotes _ _ := trivial
  take _ _ hw := hw
  setPrice _ _ _ _ hw := hw
  orders _ _ _ hw := hw

theorem upholds_charges (a : Act) : a.Upholds (World.Charges buy sell) fun _ => True := by
  cases a with
  | ask q => cases q <;> trivial
  | relink link => exact fun w hw => hw
  | place | goOn | enter | cancel | list => trivial

theorem vouched_charges (a : Act) :
    a.Vouched (World.Charges buy sell) (Query.TellsFee buy sell) := by
  refine keeps_charges.vouched_act (upholds_charges a) fun q _ => ?_
  cases q with
  | buyFee m =>
    refine vouches_answering (vouches_look fun w hw => vouches_pure ?_)
    rw [hw.1]
    rfl
  | sellFee m =>
    refine vouches_answering (vouches_look fun w hw => vouches_pure ?_)
    rw [hw.2]
    rfl
  | price | orderBook | ticker | balances | setPrice =>
    exact (keeps_charges.vouches_query (upholds_charges _)).mono fun _ _ => trivial

namespace Desk

/-- The fees of a desk, whatever its users do. -/
structure Charges (d : Desk) (buy sell : Decimal) : Prop where
  /-- Both are told at once at any time, and nothing changes. -/
  run : ∀ (σ : Nat → Act) (n : Nat) (m : String) (now : Timestamp),
    (exchange.buyFee m).run.run now (d.after σ n).world = (.ok buy, (d.after σ n).world) ∧
    (exchange.sellFee m).run.run now (d.after σ n).world = (.ok sell, (d.after σ n).world)
  /-- They are what every user is told who has asked for them. -/
  answered : ∀ (σ : Nat → Act) (n : Nat) (q : Query) (r : Except Fault Answer),
    .answered q r ∈ (d.after σ n).calls → q.TellsFee buy sell r

theorem charges_of_world {d : Desk} (hd : d.calls = []) (hw : d.world.Charges buy sell) :
    d.Charges buy sell := by
  have hall (σ : Nat → Act) (n : Nat) :
      (d.after σ n).Vouched (World.Charges buy sell) (Query.TellsFee buy sell) := by
    refine Vouched.after keeps_charges.orders ⟨hw, ?_⟩ (fun n => vouched_charges (σ n)) n
    rw [hd]
    exact List.forall_mem_nil _
  refine ⟨fun σ n m now => ?_, fun σ n q r hr => (hall σ n).calls _ hr⟩
  obtain ⟨hbuy, hsell⟩ := (hall σ n).world
  show (Except.ok (d.after σ n).world.paper.buyFee, _) = _ ∧
    (Except.ok (d.after σ n).world.paper.sellFee, _) = _
  rw [hbuy, hsell]
  exact ⟨rfl, rfl⟩

end Desk

/-! ## The whole of it -/

/-- **What becomes of the settings of a new exchange.** Its initialisation succeeds exactly if all
are accepted. It then has the amounts that they seed, one for each setting, and from then on,
whatever its users do, it charges the configured fees or the default ones. If it fails, it does so
with the first offence. -/
theorem init_seeds_or_first_offence (c : Config.Exchange) (w : World) (now : Timestamp) :
    (((adapter.init c).run.run now (adapter.fresh w)).1 = .ok () ↔ Readable c.other) ∧
    (Readable c.other → Seeds c.other (Desk.opened c w now).world.paper ∧
      (Desk.opened c w now).Charges (feeOr c.other Fees.buyKey) (feeOr c.other Fees.sellKey) ∧
      IsPart (feeOr c.other Fees.buyKey) ∧ IsPart (feeOr c.other Fees.sellKey)) ∧
    ∀ f, ((adapter.init c).run.run now (adapter.fresh w)).1 = .error f ↔
      ∃ detail, f = .error (.api detail) ∧ FirstOffence c.other (.api detail) := by
  have hfresh : (adapter.fresh w).paper = {} := rfl
  rw [run_initialise, hfresh]
  dsimp only
  rcases init_cases c with ⟨e, he, hfirst⟩ | ⟨hok, hread, hseeds⟩
  · rw [he]
    obtain ⟨detail, rfl⟩ := hfirst.exists_detail
    refine ⟨iff_of_false nofun hfirst.not_readable, fun h => absurd h hfirst.not_readable, ?_⟩
    intro f
    constructor
    · intro h
      cases h
      exact ⟨detail, rfl, hfirst⟩
    · rintro ⟨detail', rfl, hfirst'⟩
      rw [hfirst.unique hfirst']
      rfl
  · rw [hok]
    refine ⟨iff_of_true rfl hread, fun _ => ?_, fun f => iff_of_false nofun ?_⟩
    · rw [Desk.paper_opened]
      refine ⟨hseeds, Desk.charges_of_world rfl ?_, (hread .buyFee).isPart_feeOr trivial,
        (hread .sellFee).isPart_feeOr trivial⟩
      rw [World.Charges, Desk.paper_opened]
      exact ⟨hseeds.buyFee, hseeds.sellFee⟩
    · rintro ⟨detail, -, hfirst⟩
      exact hfirst.not_readable hread

end TradingBot.Paper
