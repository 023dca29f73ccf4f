import Mathlib.Data.String.Basic
import TradingBot.Config.Directory
import TradingBot.Proofs.FirstViolation

/-!
# A directory stands for what is written in it

**Names alone** (`FileTree.find_of_flat`). Where nothing lies in a directory, a name is found as it
is written down.

**Headings** (`Config.Heading`). A section's heading names its file and the field in it, how the
field is read and what is held where it may be left out. The sections of a source, of a
configuration and of a directory are all found by their headings.

**First failures** (`Config.Source.FirstFailure`). A source opens files up to the first section
that cannot be had, and the error is that section's (`Config.Source.FirstFailure.sections_eq`,
`Config.Source.FirstFailure.opened_eq`).

**Directories** (`Config.Directory.Gives`, `Config.Directory.Fails`). What each file comes to, from
the tree of files alone. A directory loads as the configuration would that its files write down
(`Config.Directory.Settled`), and it makes no difference how nothing is said
(`Config.Directory.Alike`).
-/

namespace TradingBot.FileTree

/-! ## Names alone -/

/-- A text is not split where no slash is left; `passed` is what was passed already. -/
theorem splitOnAux_of_not_mem (passed rest : List Char) (h : '/' ∉ rest) :
    String.splitOnAux (String.ofList (passed ++ rest)) "/" 0 ⟨String.utf8Len passed⟩ 0 [] =
      [String.ofList (passed ++ rest)] := by
  induction rest generalizing passed with
  | nil =>
    rw [String.splitOnAux, if_pos ((String.atEnd_of_valid passed []).mpr rfl)]
    simpa using String.extract_of_valid [] passed []
  | cons c rest ih =>
    have hmore : ¬ String.Pos.Raw.atEnd (String.ofList (passed ++ c :: rest))
        ⟨String.utf8Len passed⟩ = true :=
      fun hend => List.cons_ne_nil c rest ((String.atEnd_of_valid passed (c :: rest)).mp hend)
    have hother : ¬ (c == String.Pos.Raw.get "/" 0) = true := by
      rw [beq_iff_eq]
      exact fun hc => h (hc ▸ List.mem_cons_self)
    have hnext := String.next_of_valid passed c rest
    have hrest := ih (passed ++ [c]) fun hr => h (List.mem_cons_of_mem c hr)
    rw [String.splitOnAux, if_neg hmore, String.get_of_valid, List.headD_cons, if_neg hother]
    show String.splitOnAux _ "/" 0 (String.Pos.Raw.next _ ⟨String.utf8Len passed⟩) 0 [] = _
    rw [hnext]
    simpa [-String.ofList_append] using hrest

theorem splitOn_of_not_mem {name : String} (h : '/' ∉ name.toList) :
    name.splitOn "/" = [name] := by
  rw [String.splitOn, if_neg (by decide)]
  simpa using splitOnAux_of_not_mem [] name.toList h

/-- If nothing lies in a directory, what is found under a name is what is written down for it. -/
theorem find_of_flat {t : FileTree} {name : String}
    (ht : ∀ path ∈ t.entries.keys, '/' ∉ path.toList) (h : '/' ∉ name.toList)
    (hn : name ≠ "" ∧ name ≠ "." ∧ name ≠ "..") :
    t.find name = match t.entries.get? name with
      | some e => .ok e
      | none => .error .missing := by
  have horigin : origin name = [] :=
    if_neg fun hs => h ((String.startsWith_string_iff.mp hs).subset List.mem_cons_self)
  have henter : enter [] name = [name] := by simp [enter, hn]
  have hbelow : t.entries.keys.any (·.startsWith (name ++ "/")) = false :=
    List.any_eq_false.mpr fun path hpath hs =>
      ht path hpath ((String.startsWith_string_iff.mp hs).subset (by simp))
  unfold find
  rw [if_neg hn.1, splitOn_of_not_mem h, horigin]
  show t.here? (enter [] name) = _
  rw [henter]
  show (match t.entry? name with | some e => _ | none => _) = _
  unfold entry?
  rw [hbelow]
  cases t.entries.get? name <;> rfl

/-- A file that holds the bytes of a text is read as this text. -/
theorem text_of_find {t : FileTree} {path text : String}
    (h : t.find path = .ok (.file text.toUTF8.data.toList)) : t.text path = .ok text := by
  have hread : String.fromUTF8? text.toUTF8 = some text := dif_pos text.isValidUTF8
  unfold FileTree.text
  rw [h]
  dsimp only
  rw [Array.toArray_toList, hread]

end TradingBot.FileTree

namespace TradingBot.Config

/-! ## Headings -/

inductive Heading where
  | engine
  | exchange
  | markets
  | strategies
  | alerts
deriving DecidableEq

namespace Heading

def order : List Heading := [engine, exchange, markets, strategies, alerts]

def before (h : Heading) : List Heading := order.takeWhile (· ≠ h)

def file : Heading → String
  | engine => Directory.engineFile
  | exchange => Directory.exchangeFile
  | markets => Directory.marketsFile
  | strategies => Directory.strategiesFile
  | alerts => Directory.alertsFile

def field : Heading → String
  | engine => "engine"
  | exchange => "exchange"
  | markets => "markets"
  | strategies => "strategies"
  | alerts => "alerts"

def Content : Heading → Type
  | engine => Engine
  | exchange => Exchange
  | markets => List Market
  | strategies => List Strategy
  | alerts => Alerts

/-- What is held where the field is left out, if it may be. -/
def spare : (h : Heading) → Option h.Content
  | engine | exchange => none
  | markets => some ([] : List Market)
  | strategies => some ([] : List Strategy)
  | alerts => some ({} : Alerts)

def readValue : (h : Heading) → Yaml.Node → Option h.Content
  | engine => Engine.decode Yaml.dialect
  | exchange => Exchange.decode Yaml.dialect
  | markets => Yaml.dialect.list (Market.decode Yaml.dialect)
  | strategies => Yaml.dialect.list (Strategy.decode Yaml.dialect)
  | alerts => Alerts.decode Yaml.dialect

/-- A value with nothing in it: an empty list, or a record without entries. -/
def IsEmpty (v : Yaml.Node) : Heading → Prop
  | engine | exchange => False
  | markets | strategies => Yaml.dialect.items v = some []
  | alerts => Yaml.dialect.entries v = some []

def record? (h : Heading) (text : String) : Option (Fields Yaml.Node) :=
  (Yaml.Node.parse text).bind (Yaml.dialect.record [⟨h.field, []⟩])

def decode (h : Heading) (r : Fields Yaml.Node) : Option h.Content :=
  match r.lookup h.field with
  | none => h.spare
  | some v => h.readValue v

/-- A text says what its record holds under the heading. -/
def Says (h : Heading) (text : String) (a : h.Content) : Prop :=
  ∃ r, h.record? text = some r ∧ h.decode r = some a

theorem says_iff {h : Heading} {text : String} {a : h.Content} :
    h.Says text a ↔ (h.record? text).bind h.decode = some a :=
  Option.bind_eq_some_iff.symm

instance : (h : Heading) → DecidableEq h.Content
  | engine => inferInstanceAs (DecidableEq Engine)
  | exchange => inferInstanceAs (DecidableEq Exchange)
  | markets => inferInstanceAs (DecidableEq (List Market))
  | strategies => inferInstanceAs (DecidableEq (List Strategy))
  | alerts => inferInstanceAs (DecidableEq Alerts)

instance (h : Heading) (text : String) (a : h.Content) : Decidable (h.Says text a) :=
  decidable_of_iff _ says_iff.symm

theorem mem_order (h : Heading) : h ∈ order := by cases h <;> decide

theorem order_eq (h : Heading) : ∃ later, order = h.before ++ h :: later := by
  cases h <;> exact ⟨_, rfl⟩

theorem before_eq {h : Heading} {earlier later : List Heading}
    (ho : order = earlier ++ h :: later) : h.before = earlier := by
  have hn : (earlier ++ h :: later).Nodup := ho ▸ (by decide : order.Nodup)
  have hne : ∀ k ∈ earlier, k ≠ h := fun k hk =>
    (List.nodup_append.mp hn).2.2 k hk h List.mem_cons_self
  unfold before
  rw [ho, List.takeWhile_append_of_pos (by simpa using hne)]
  simp

theorem alerts_not_mem_before (h : Heading) : alerts ∉ h.before := by cases h <;> decide

theorem decode_eq_required {h : Heading} (hs : h.spare = none) (r : Fields Yaml.Node) :
    h.decode r = r.required h.field h.readValue := by
  unfold decode Fields.required
  rw [hs]
  cases r.lookup h.field <;> rfl

theorem decode_eq_optional {h : Heading} {a : h.Content} (hs : h.spare = some a)
    (r : Fields Yaml.Node) : h.decode r = r.optional h.field a h.readValue := by
  unfold decode Fields.optional
  cases r.lookup h.field with
  | none => exact hs
  | some v => rfl

theorem readValue_of_isEmpty {h : Heading} {v : Yaml.Node} (he : h.IsEmpty v) :
    h.readValue v = h.spare := by
  cases h with
  | engine => exact he.elim
  | exchange => exact he.elim
  | markets =>
    show (Yaml.dialect.items v).bind _ = _
    rw [show Yaml.dialect.items v = some [] from he]
    rfl
  | strategies =>
    show (Yaml.dialect.items v).bind _ = _
    rw [show Yaml.dialect.items v = some [] from he]
    rfl
  | alerts =>
    have hr : Yaml.dialect.record Alerts.fields v = some [] := by
      unfold Dialect.record
      rw [show Yaml.dialect.entries v = some [] from he]
      rfl
    show Alerts.decode Yaml.dialect v = _
    unfold Alerts.decode
    rw [hr]
    rfl

/-- A record that says nothing under the heading holds what is held where it is left out. -/
theorem decode_of_isEmpty {h : Heading} {r : Fields Yaml.Node}
    (he : ∀ v, r.lookup h.field = some v → h.IsEmpty v) : h.decode r = h.spare := by
  unfold decode
  cases hl : r.lookup h.field with
  | none => rfl
  | some v => exact readValue_of_isEmpty (he v hl)

end Heading

def held (c : Config) : (h : Heading) → h.Content
  | .engine => c.engine
  | .exchange => c.exchange
  | .markets => c.markets
  | .strategies => c.strategies
  | .alerts => c.alerts

def ofHeld (held : (h : Heading) → h.Content) : Config where
  engine := held .engine
  exchange := held .exchange
  markets := held .markets
  strategies := held .strategies
  alerts := held .alerts

theorem held_ofHeld (held : (h : Heading) → h.Content) (h : Heading) :
    (ofHeld held).held h = held h := by
  cases h <;> rfl

/-! ## Sources by their headings -/

namespace Source

def under (s : Source) : (h : Heading) → Section h.Content
  | .engine => s.engine
  | .exchange => s.exchange
  | .markets => s.markets
  | .strategies => s.strategies
  | .alerts => s.alerts

/-- The section under a heading is the first that cannot be had. -/
structure FirstFailure (s : Source) (h : Heading) (e : Error) : Prop where
  fails : (s.under h).content = .error e
  earlier : ∀ k ∈ h.before, ∃ a, (s.under k).content = .ok a

def files (s : Source) (headings : List Heading) : List String :=
  headings.flatMap fun h => (s.under h).path.toList

variable {s : Source}

/-- Either every section is had, or one of them is the first that is not. -/
theorem had_or_firstFailure (s : Source) :
    (∃ c : Config, ∀ h, (s.under h).content = .ok (c.held h)) ∨ ∃ h e, s.FirstFailure h e := by
  cases hf : Heading.order.find? fun h => !(s.under h).content.isOk with
  | none =>
    have hall (h : Heading) : ∃ a, (s.under h).content = .ok a := by
      have hok := List.find?_eq_none.mp hf h h.mem_order
      cases hc : (s.under h).content with
      | error e => simp [hc, Except.isOk, Except.toBool] at hok
      | ok a => exact ⟨a, rfl⟩
    choose held hheld using hall
    exact .inl ⟨ofHeld held, fun h => by rw [held_ofHeld, hheld h]⟩
  | some h =>
    -- The headings that the search has passed over are those before this one.
    obtain ⟨hfails, earlier, later, ho, hearlier⟩ := List.find?_eq_some_iff_append.mp hf
    cases hc : (s.under h).content with
    | ok a => simp [hc, Except.isOk, Except.toBool] at hfails
    | error e =>
      refine .inr ⟨h, e, hc, fun k hk => ?_⟩
      have hok := hearlier k (Heading.before_eq ho ▸ hk)
      cases hk : (s.under k).content with
      | error e => simp [hk, Except.isOk, Except.toBool] at hok
      | ok a => exact ⟨a, rfl⟩

/-! ### What the sections come to -/

theorem sections_of_had {c : Config} (hc : ∀ h, (s.under h).content = .ok (c.held h)) :
    s.sections = .ok c := by
  have h₁ : s.engine.content = .ok c.engine := hc .engine
  have h₂ : s.exchange.content = .ok c.exchange := hc .exchange
  have h₃ : s.markets.content = .ok c.markets := hc .markets
  have h₄ : s.strategies.content = .ok c.strategies := hc .strategies
  have h₅ : s.alerts.content = .ok c.alerts := hc .alerts
  simp only [sections, h₁, h₂, h₃, h₄, h₅]
  rfl

theorem FirstFailure.sections_eq {h : Heading} {e : Error} (hf : s.FirstFailure h e) :
    s.sections = .error e := by
  have hh := hf.fails
  have he := hf.earlier
  -- The sections are bound one after the other: what comes before the failure is had.
  unfold sections
  cases h with
  | engine =>
    rw [show s.engine.content = _ from hh]
    rfl
  | exchange =>
    obtain ⟨a₁, h₁⟩ : ∃ a, s.engine.content = .ok a := he .engine (by decide)
    rw [h₁, show s.exchange.content = _ from hh]
    rfl
  | markets =>
    obtain ⟨a₁, h₁⟩ : ∃ a, s.engine.content = .ok a := he .engine (by decide)
    obtain ⟨a₂, h₂⟩ : ∃ a, s.exchange.content = .ok a := he .exchange (by decide)
    rw [h₁, h₂, show s.markets.content = _ from hh]
    rfl
  | strategies =>
    obtain ⟨a₁, h₁⟩ : ∃ a, s.engine.content = .ok a := he .engine (by decide)
    obtain ⟨a₂, h₂⟩ : ∃ a, s.exchange.content = .ok a := he .exchange (by decide)
    obtain ⟨a₃, h₃⟩ : ∃ a, s.markets.content = .ok a := he .markets (by decide)
    rw [h₁, h₂, h₃, show s.strategies.content = _ from hh]
    rfl
  | alerts =>
    obtain ⟨a₁, h₁⟩ : ∃ a, s.engine.content = .ok a := he .engine (by decide)
    obtain ⟨a₂, h₂⟩ : ∃ a, s.exchange.content = .ok a := he .exchange (by decide)
    obtain ⟨a₃, h₃⟩ : ∃ a, s.markets.content = .ok a := he .markets (by decide)
    obtain ⟨a₄, h₄⟩ : ∃ a, s.strategies.content = .ok a := he .strategies (by decide)
    rw [h₁, h₂, h₃, h₄, show s.alerts.content = _ from hh]
    rfl

theorem load_congr {s' : Source} (hc : ∀ h, (s.under h).content = (s'.under h).content) :
    s.load = s'.load := by
  have h₁ : s.engine.content = s'.engine.content := hc .engine
  have h₂ : s.exchange.content = s'.exchange.content := hc .exchange
  have h₃ : s.markets.content = s'.markets.content := hc .markets
  have h₄ : s.strategies.content = s'.strategies.content := hc .strategies
  have h₅ : s.alerts.content = s'.alerts.content := hc .alerts
  simp only [load, sections, h₁, h₂, h₃, h₄, h₅]

/-! ### What is opened for them -/

def openedUnder (s : Source) (headings : List Heading) : List String :=
  headings.foldr (fun h rest => openedFrom (s.under h) rest) []

theorem opened_eq_openedUnder (s : Source) : s.opened = s.openedUnder Heading.order := rfl

theorem openedUnder_cons_of_ok {h : Heading} {a : h.Content} (headings : List Heading)
    (ha : (s.under h).content = .ok a) :
    s.openedUnder (h :: headings) = (s.under h).path.toList ++ s.openedUnder headings := by
  show openedFrom (s.under h) _ = _
  unfold openedFrom
  rw [ha]
  rfl

theorem openedUnder_of_had {headings : List Heading}
    (hall : ∀ h ∈ headings, ∃ a, (s.under h).content = .ok a) :
    s.openedUnder headings = s.files headings := by
  induction headings with
  | nil => rfl
  | cons h headings ih =>
    obtain ⟨a, ha⟩ := hall h List.mem_cons_self
    rw [openedUnder_cons_of_ok headings ha, ih fun k hk => hall k (List.mem_cons_of_mem _ hk)]
    rfl

/-- Behind a section that cannot be had nothing is opened. -/
theorem openedUnder_of_error {earlier later : List Heading} {h : Heading} {e : Error}
    (hfails : (s.under h).content = .error e)
    (hall : ∀ k ∈ earlier, ∃ a, (s.under k).content = .ok a) :
    s.openedUnder (earlier ++ h :: later) = s.files (earlier ++ [h]) := by
  induction earlier with
  | nil =>
    show openedFrom (s.under h) _ = _
    unfold openedFrom
    rw [hfails]
    rfl
  | cons k earlier ih =>
    obtain ⟨a, ha⟩ := hall k List.mem_cons_self
    rw [List.cons_append, openedUnder_cons_of_ok _ ha,
      ih fun k' hk => hall k' (List.mem_cons_of_mem _ hk)]
    rfl

theorem opened_of_had (hall : ∀ h, ∃ a, (s.under h).content = .ok a) :
    s.opened = s.files Heading.order :=
  (opened_eq_openedUnder s).trans (openedUnder_of_had fun h _ => hall h)

theorem FirstFailure.opened_eq {h : Heading} {e : Error} (hf : s.FirstFailure h e) :
    s.opened = s.files (h.before ++ [h]) := by
  obtain ⟨later, ho⟩ := h.order_eq
  rw [opened_eq_openedUnder, ho]
  exact openedUnder_of_error hf.fails hf.earlier

end Source

/-! ## What the files of a directory come to -/

namespace Directory

/-- The path of the file that the section under a heading is read from. -/
def pathFor (d : Directory) (h : Heading) : String := d.pathOf h.file

/-- In a directory with an empty path, if nothing lies deeper, a file is found by its name. -/
theorem find_pathFor {d : Directory} (hp : d.path = "")
    (hflat : ∀ path ∈ d.tree.entries.keys, '/' ∉ path.toList) (h : Heading) :
    d.tree.find (d.pathFor h) = match d.tree.entries.get? h.file with
      | some e => .ok e
      | none => .error .missing := by
  have hname : d.pathFor h = h.file := by
    unfold pathFor pathOf
    rw [hp, if_pos (.inl rfl), String.empty_append]
  rw [hname]
  cases h <;> exact FileTree.find_of_flat hflat (by decide) (by decide)

/-- A file is opened in its turn; that of alerts only if something is found there. -/
def Opens (d : Directory) (h : Heading) : Prop :=
  h = .alerts → (d.tree.find (d.pathFor h)).isOk = true

instance (d : Directory) (h : Heading) : Decidable (d.Opens h) :=
  inferInstanceAs (Decidable (_ → _))

/-- A file's text says what is held under its heading. Where none is opened, that is what is held
where it may be left out. -/
def Gives (d : Directory) (h : Heading) (a : h.Content) : Prop :=
  ¬ d.Opens h ∧ h.spare = some a ∨
    d.Opens h ∧ ∃ text, d.tree.text (d.pathFor h) = .ok text ∧ h.Says text a

/-- A file cannot be read as text, or its text says nothing that is understood. The error tells
which and names the file. -/
inductive Fails (d : Directory) (h : Heading) : Error → Prop
  | unreadable {failure : ReadFailure} (ho : d.Opens h)
      (ht : d.tree.text (d.pathFor h) = .error failure) :
      Fails d h (.unreadable (d.pathFor h) failure)
  | malformed {text : String} (ho : d.Opens h) (ht : d.tree.text (d.pathFor h) = .ok text)
      (hs : ∀ a, ¬ h.Says text a) : Fails d h (.malformed (d.pathFor h))

variable {d : Directory}

theorem content_read_of_error {h : Heading} {failure : ReadFailure}
    (ht : d.tree.text (d.pathFor h) = .error failure) :
    (d.read h.file h.decode h.field).content = .error (.unreadable (d.pathFor h) failure) := by
  unfold pathFor at ht ⊢
  simp only [read, ht]

theorem content_read_of_not_says {h : Heading} {text : String}
    (ht : d.tree.text (d.pathFor h) = .ok text) (hs : ∀ a, ¬ h.Says text a) :
    (d.read h.file h.decode h.field).content = .error (.malformed (d.pathFor h)) := by
  have hd : (h.record? text).bind h.decode = none :=
    Option.eq_none_iff_forall_ne_some.mpr fun a ha => hs a (Heading.says_iff.mpr ha)
  unfold pathFor Heading.record? at *
  simp only [read, ht, hd]

theorem content_read_of_says {h : Heading} {text : String} {a : h.Content}
    (ht : d.tree.text (d.pathFor h) = .ok text) (hs : h.Says text a) :
    (d.read h.file h.decode h.field).content = .ok a := by
  have hd := Heading.says_iff.mp hs
  unfold pathFor Heading.record? at *
  simp only [read, ht, hd]

theorem under_of_opens {h : Heading} (ho : d.Opens h) :
    d.toSource.under h = d.read h.file h.decode h.field := by
  cases h with
  | engine =>
    rw [funext (Heading.decode_eq_required (h := .engine) rfl)]
    rfl
  | exchange =>
    rw [funext (Heading.decode_eq_required (h := .exchange) rfl)]
    rfl
  | markets =>
    rw [funext (Heading.decode_eq_optional (h := .markets) rfl)]
    rfl
  | strategies =>
    rw [funext (Heading.decode_eq_optional (h := .strategies) rfl)]
    rfl
  | alerts =>
    rw [funext (Heading.decode_eq_optional (h := .alerts) rfl)]
    exact if_pos (ho rfl)

theorem under_of_not_opens {h : Heading} (ho : ¬ d.Opens h) :
    ∃ a, h.spare = some a ∧ d.toSource.under h = { content := .ok a } := by
  obtain ⟨rfl, hnone⟩ := Classical.not_imp.mp ho
  exact ⟨_, rfl, if_neg hnone⟩

theorem path_under (d : Directory) (h : Heading) :
    (d.toSource.under h).path = if d.Opens h then some (d.pathFor h) else none := by
  split
  · next ho =>
    rw [under_of_opens ho]
    rfl
  · next ho =>
    obtain ⟨a, -, hu⟩ := under_of_not_opens ho
    rw [hu]

theorem files_toSource (d : Directory) (headings : List Heading) :
    d.toSource.files headings = (headings.filter (d.Opens ·)).map d.pathFor := by
  unfold Source.files
  induction headings with
  | nil => rfl
  | cons h headings ih =>
    rw [List.flatMap_cons, ih, path_under]
    by_cases ho : d.Opens h <;> simp [ho]

theorem Gives.content_eq {h : Heading} {a : h.Content} (hg : d.Gives h a) :
    (d.toSource.under h).content = .ok a := by
  rcases hg with ⟨ho, hs⟩ | ⟨ho, text, ht, hs⟩
  · obtain ⟨b, hb, hu⟩ := under_of_not_opens ho
    rw [hu, Option.some.inj (hb.symm.trans hs)]
  · rw [under_of_opens ho]
    exact content_read_of_says ht hs

theorem Fails.content_eq {h : Heading} {e : Error} (hf : d.Fails h e) :
    (d.toSource.under h).content = .error e := by
  cases hf with
  | unreadable ho ht =>
    rw [under_of_opens ho]
    exact content_read_of_error ht
  | malformed ho ht hs =>
    rw [under_of_opens ho]
    exact content_read_of_not_says ht hs

theorem gives_or_fails (d : Directory) (h : Heading) : (∃ a, d.Gives h a) ∨ ∃ e, d.Fails h e := by
  by_cases ho : d.Opens h
  · cases ht : d.tree.text (d.pathFor h) with
    | error failure => exact .inr ⟨_, .unreadable ho ht⟩
    | ok text =>
      by_cases hs : ∃ a, h.Says text a
      · obtain ⟨a, ha⟩ := hs
        exact .inl ⟨a, .inr ⟨ho, text, ht, ha⟩⟩
      · exact .inr ⟨_, .malformed ho ht fun a ha => hs ⟨a, ha⟩⟩
  · obtain ⟨a, ha, -⟩ := under_of_not_opens ho
    exact .inl ⟨a, .inl ⟨ho, ha⟩⟩

theorem content_eq_ok_iff {h : Heading} {a : h.Content} :
    (d.toSource.under h).content = .ok a ↔ d.Gives h a := by
  refine ⟨fun hc => ?_, Gives.content_eq⟩
  rcases d.gives_or_fails h with ⟨b, hb⟩ | ⟨e, he⟩
  · rw [hb.content_eq] at hc
    cases hc
    exact hb
  · rw [he.content_eq] at hc
    cases hc

theorem content_eq_error_iff {h : Heading} {e : Error} :
    (d.toSource.under h).content = .error e ↔ d.Fails h e := by
  refine ⟨fun hc => ?_, Fails.content_eq⟩
  rcases d.gives_or_fails h with ⟨b, hb⟩ | ⟨e', he⟩
  · rw [hb.content_eq] at hc
    cases hc
  · rw [he.content_eq] at hc
    cases hc
    exact he

/-! ### A whole directory -/

/-- The files of the directory write down the configuration. -/
def Holds (d : Directory) (c : Config) : Prop := ∀ h, d.Gives h (c.held h)

/-- The file under a heading is the first of the directory to fail. -/
structure FirstFailure (d : Directory) (h : Heading) (e : Error) : Prop where
  fails : d.Fails h e
  earlier : ∀ k ∈ h.before, ∃ a, d.Gives k a

theorem firstFailure_toSource {h : Heading} {e : Error} :
    d.toSource.FirstFailure h e ↔ d.FirstFailure h e := by
  refine ⟨fun hf => ⟨content_eq_error_iff.mp hf.fails, fun k hk => ?_⟩,
    fun hf => ⟨hf.fails.content_eq, fun k hk => ?_⟩⟩
  · obtain ⟨a, ha⟩ := hf.earlier k hk
    exact ⟨a, content_eq_ok_iff.mp ha⟩
  · obtain ⟨a, ha⟩ := hf.earlier k hk
    exact ⟨a, ha.content_eq⟩

/-- How a directory loads. Its files are opened in the order of their headings, up to the first
that fails, whose error it is. Without a failure it loads as the configuration that the files
write down. -/
structure Settled (d : Directory) : Prop where
  cases : (∃ c, d.Holds c) ∨ ∃ h e, d.FirstFailure h e
  firstFailure : ∀ h e, d.FirstFailure h e →
    d.toSource.load = .error e ∧ d.toSource.opened = (h.before ++ [h]).map d.pathFor
  holds : ∀ c, d.Holds c → d.toSource.load = c.toSource.load ∧
    d.toSource.opened = (Heading.order.filter (d.Opens ·)).map d.pathFor

theorem Fails.opens {h : Heading} {e : Error} (hf : d.Fails h e) : d.Opens h := by
  cases hf with
  | unreadable ho _ => exact ho
  | malformed ho _ _ => exact ho

theorem FirstFailure.files_eq {h : Heading} {e : Error} (hf : d.FirstFailure h e) :
    d.toSource.files (h.before ++ [h]) = (h.before ++ [h]).map d.pathFor := by
  have hopens : ∀ k ∈ h.before ++ [h], d.Opens k := by
    intro k hk
    rcases List.mem_append.mp hk with hk | hk
    · rintro rfl
      exact absurd hk h.alerts_not_mem_before
    · rw [List.mem_singleton.mp hk]
      exact hf.fails.opens
  rw [files_toSource, List.filter_eq_self.mpr (by simpa using hopens)]

theorem settled (d : Directory) : d.Settled where
  cases := by
    rcases d.toSource.had_or_firstFailure with ⟨c, hc⟩ | ⟨h, e, hf⟩
    · exact .inl ⟨c, fun h => content_eq_ok_iff.mp (hc h)⟩
    · exact .inr ⟨h, e, firstFailure_toSource.mp hf⟩
  firstFailure h e hf := by
    have hs := firstFailure_toSource.mpr hf
    refine ⟨?_, hs.opened_eq.trans hf.files_eq⟩
    unfold Source.load
    rw [hs.sections_eq]
    rfl
  holds c hc := by
    have hs : ∀ h, (d.toSource.under h).content = .ok (c.held h) := fun h => (hc h).content_eq
    constructor
    · unfold Source.load
      rw [Source.sections_of_had hs]
      rfl
    · rw [Source.opened_of_had fun h => ⟨_, hs h⟩, files_toSource]

/-! ### Saying nothing -/

/-- A section may be left out and is: its file is not there where it need not be, or it says
nothing under the heading, or nothing is in what it says. -/
def SaysNothing (d : Directory) (h : Heading) : Prop :=
  h.spare.isSome = true ∧
    (¬ d.Opens h ∨ d.Opens h ∧ ∃ text r, d.tree.text (d.pathFor h) = .ok text ∧
      h.record? text = some r ∧ ∀ v, r.lookup h.field = some v → h.IsEmpty v)

/-- Two directories of one path with the same file under each heading, but where both say
nothing. -/
structure Alike (d d' : Directory) : Prop where
  path : d.path = d'.path
  files : ∀ h, d.tree.find (d.pathFor h) = d'.tree.find (d.pathFor h) ∨
    d.SaysNothing h ∧ d'.SaysNothing h

theorem SaysNothing.gives {h : Heading} (hn : d.SaysNothing h) :
    ∃ a, h.spare = some a ∧ d.Gives h a := by
  obtain ⟨hs, hd⟩ := hn
  obtain ⟨a, ha⟩ := Option.isSome_iff_exists.mp hs
  refine ⟨a, ha, ?_⟩
  rcases hd with ho | ⟨ho, text, r, ht, hr, hv⟩
  · exact .inl ⟨ho, ha⟩
  · exact .inr ⟨ho, text, ht, r, hr, (Heading.decode_of_isEmpty hv).trans ha⟩

/-- The same file under a heading makes for the same section. -/
theorem under_eq_of_find {d' : Directory} {h : Heading} (hp : d.path = d'.path)
    (hf : d.tree.find (d.pathFor h) = d'.tree.find (d.pathFor h)) :
    d.toSource.under h = d'.toSource.under h := by
  have hpath : d.pathFor h = d'.pathFor h := by
    unfold pathFor pathOf
    rw [hp]
  have hopens : d.Opens h ↔ d'.Opens h := by
    unfold Opens
    rw [hf, hpath]
  have htext : d.tree.text (d.pathFor h) = d'.tree.text (d'.pathFor h) := by
    unfold FileTree.text
    rw [hf, hpath]
  by_cases ho : d.Opens h
  · rw [under_of_opens ho, under_of_opens (hopens.mp ho)]
    unfold pathFor at hpath htext
    rw [hpath] at htext
    simp only [read, hpath, htext]
  · obtain ⟨a, ha, hu⟩ := under_of_not_opens ho
    obtain ⟨b, hb, hu'⟩ := under_of_not_opens (mt hopens.mpr ho)
    rw [hu, hu', Option.some.inj (ha.symm.trans hb)]

theorem Alike.load_eq {d' : Directory} (ha : d.Alike d') : d.toSource.load = d'.toSource.load := by
  -- Where both say nothing, the files may differ, and so may what is opened: only what is held
  -- under the heading is the same.
  refine Source.load_congr fun h => ?_
  rcases ha.files h with hf | ⟨hn, hn'⟩
  · rw [under_eq_of_find ha.path hf]
  · obtain ⟨a, hs, hg⟩ := hn.gives
    obtain ⟨b, hs', hg'⟩ := hn'.gives
    rw [hg.content_eq, hg'.content_eq, Option.some.inj (hs.symm.trans hs')]

end Directory

/-! ## Loading -/

/-- **A directory stands for what is written in it.** Its files are read in the order of engine,
exchange, markets, strategies and alerts, and the first that cannot be read or understood ends the
loading with its own error. If there is none, the directory loads as the configuration that is
written down does from memory: it is had itself if it breaks no rule, or its violation is reported.
Directories that differ only in how they say nothing of alerts, markets or strategies load the
same, and from whichever source a configuration comes, it passes the check. -/
theorem loads_as_written :
    (∀ d : Directory, d.Settled) ∧
      (∀ d d' : Directory, d.Alike d' → d.toSource.load = d'.toSource.load) ∧
      (∀ c : Config, c.toSource.load = .ok c ∧ c.violation? = none ∨
        ∃ v, c.toSource.load = .error (.invalid v) ∧ c.violation? = some v) ∧
      ∀ (s : Source) (c : Config), s.load = .ok c → c.violation? = none := by
  refine ⟨Directory.settled, fun d d' ha => ha.load_eq, fun c => ?_, fun s c hl => ?_⟩
  · show c.check = .ok c ∧ _ ∨ ∃ v, c.check = .error (.invalid v) ∧ _
    cases hv : c.violation? with
    | none => exact .inl ⟨check_eq_ok_iff.mpr ⟨rfl, (violation?_eq_none_iff c).mp hv⟩, rfl⟩
    | some v => exact .inr ⟨v, check_eq_error_iff.mpr ⟨v, rfl, hv⟩, rfl⟩
  · exact (violation?_eq_none_iff c).mpr (Source.valid_of_load hl)

end TradingBot.Config

/-! ### A directory that says nothing of alerts, in two ways -/

namespace TradingBot.Rehearsed

open Config

def file (text : String) : Entry := .file text.toUTF8.data.toList

/-- No file is there for alerts. -/
def tacit : Directory where
  path := ""
  tree.entries := .ofList
    [("engine.yaml", file "engine:\n  botId: bot\n  tradeCycleInterval: 20\n"),
      ("exchange.yaml", file "exchange:\n  name: Paper\n  adapter: paper\n"),
      ("markets.yaml", file "markets: []\n"), ("strategies.yaml", file "")]

/-- The file for alerts holds nothing under their heading. -/
def spelledOut : Directory :=
  { tacit with
    tree.entries := tacit.tree.entries.insert "alerts.yaml" (file "alerts: \x7b\x7d\n") }

/-- What both of them write down. -/
def written : Config where
  engine := { botId := "bot", cycleInterval := 20 }
  exchange := { name := "Paper", adapter := "paper" }

theorem find_tacit (h : Heading) :
    tacit.tree.find (tacit.pathFor h) = match tacit.tree.entries.get? h.file with
      | some e => .ok e
      | none => .error .missing :=
  Directory.find_pathFor rfl (by decide) h

theorem find_spelledOut (h : Heading) :
    spelledOut.tree.find (spelledOut.pathFor h) = match spelledOut.tree.entries.get? h.file with
      | some e => .ok e
      | none => .error .missing :=
  Directory.find_pathFor rfl (by decide) h

theorem tacit_opens_iff (h : Heading) : tacit.Opens h ↔ h ≠ .alerts := by
  refine ⟨?_, fun hne he => absurd he hne⟩
  rintro ho rfl
  have hfound := ho rfl
  rw [find_tacit] at hfound
  cases hfound

theorem spelledOut_opens (h : Heading) : spelledOut.Opens h := by
  rintro rfl
  rw [find_spelledOut]
  rfl

theorem tacit_holds : tacit.Holds written := by
  intro h
  have hopens := tacit_opens_iff h
  have hfind := find_tacit h
  cases h with
  | engine | exchange | markets | strategies =>
    exact .inr ⟨hopens.mpr (by decide), _, FileTree.text_of_find hfind, by decide +kernel⟩
  | alerts => exact .inl ⟨fun ho => hopens.mp ho rfl, rfl⟩

theorem tacit_saysNothing : tacit.SaysNothing .alerts :=
  ⟨rfl, .inl fun ho => (tacit_opens_iff _).mp ho rfl⟩

theorem spelledOut_saysNothing : spelledOut.SaysNothing .alerts := by
  have hwords : Yaml.Token.ofText "alerts: \x7b\x7d\n" =
      some [.mappingStart, .key, .scalar "alerts" true, .value, .openBrace, .closeBrace,
        .blockEnd] := by
    decide +kernel
  have hrecord : Heading.alerts.record? "alerts: \x7b\x7d\n" = some [("alerts", .map [])] := by
    unfold Heading.record? Yaml.Node.parse
    rw [hwords]
    rfl
  refine ⟨rfl, .inr ⟨spelledOut_opens _, _, _, FileTree.text_of_find (find_spelledOut _), hrecord,
    ?_⟩⟩
  intro v hv
  cases hv
  rfl

theorem tacit_alike_spelledOut : tacit.Alike spelledOut where
  path := rfl
  files h := by
    have hfind := find_spelledOut h
    cases h with
    | alerts => exact .inr ⟨tacit_saysNothing, spelledOut_saysNothing⟩
    | engine | exchange | markets | strategies => exact .inl ((find_tacit _).trans hfind.symm)

theorem loads_rehearsed :
    tacit.Alike spelledOut ∧
      tacit.toSource.opened = ["engine.yaml", "exchange.yaml", "markets.yaml", "strategies.yaml"] ∧
      tacit.toSource.load = .ok written ∧ spelledOut.toSource.load = .ok written := by
  obtain ⟨hsettled, halike, -, -⟩ := loads_as_written
  obtain ⟨hload, hopened⟩ := (hsettled tacit).holds written tacit_holds
  have hok : tacit.toSource.load = .ok written := hload.trans rfl
  refine ⟨tacit_alike_spelledOut, hopened.trans ?_, hok, ?_⟩
  · simp only [tacit_opens_iff]
    decide
  · rw [← halike _ _ tacit_alike_spelledOut]
    exact hok

end TradingBot.Rehearsed
