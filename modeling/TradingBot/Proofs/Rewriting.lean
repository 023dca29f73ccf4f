import Mathlib.Data.List.Perm.Basic
import Mathlib.Logic.Relation
import TradingBot.Json.Dialect
import TradingBot.Proofs.Records

/-!
# JSON that says the same

**Shapes** (`Json.Shape`). The places where the JSON of a type has records, lists and maps.

**Rewriting** (`Json.Rewrite`). One change to a value that leaves what it says: the members of a
record in another order, one more that means no field, a field under another of its names; the
entries of a map in another order; and any of these in a deeper place.

**Indifference** (`Json.Indifferent`). A reader that asks a record for its fields alone does not see
a rewriting, if the readers of the fields do not (`Json.indifferent_record`): the fields of the two
records are found alike (`Json.Alike`).

**Codecs** (`Json.Faithful`). A reader that gives back what a writer wrote, and is indifferent to
any rewriting of it.
-/

namespace TradingBot.Json

/-! ## Shapes and rewriting -/

/-- Where the JSON of a type has records, lists and maps. -/
inductive Shape where
  /-- A text, a number, a flag: nothing to rewrite. -/
  | leaf
  | nullable (shape : Shape)
  | list (item : Shape)
  | dict (entry : Shape)
  | record (fields : List FieldName) (field : String → Shape)

/-- One change that leaves what a value of the shape says. -/
inductive Rewrite : Shape → Json → Json → Prop
  | reorder {fields field members members'} : members.Perm members' →
      Rewrite (.record fields field) (.obj members) (.obj members')
  /-- One more member of a record, under a name that no field has. -/
  | add {fields field before after name v} : (∀ f ∈ fields, ¬ f.Matches name) →
      Rewrite (.record fields field) (.obj (before ++ after)) (.obj (before ++ (name, v) :: after))
  /-- A field under another of its names. -/
  | respell {fields field before after f name name' v} : f ∈ fields → f.Matches name →
      f.Matches name' → Rewrite (.record fields field) (.obj (before ++ (name, v) :: after))
        (.obj (before ++ (name', v) :: after))
  | inField {fields field before after f name v v'} : f ∈ fields → f.Matches name →
      Rewrite (field f.name) v v' → Rewrite (.record fields field)
        (.obj (before ++ (name, v) :: after)) (.obj (before ++ (name, v') :: after))
  /-- A change in a field of a record that is written as the list of its fields. -/
  | inPlace {fields field f v v'} {before after : List Json} :
      fields[before.length]? = some f → Rewrite (field f.name) v v' →
      Rewrite (.record fields field) (.arr (before ++ v :: after)) (.arr (before ++ v' :: after))
  | inItem {item before after v v'} : Rewrite item v v' →
      Rewrite (.list item) (.arr (before ++ v :: after)) (.arr (before ++ v' :: after))
  | inEntry {entry before after key v v'} : Rewrite entry v v' →
      Rewrite (.dict entry) (.obj (before ++ (key, v) :: after))
        (.obj (before ++ (key, v') :: after))
  /-- The entries of a map in another order; of several with one key the last one counts. -/
  | reorderEntries {entry} {entries entries' : List (String × Json)} : entries.Perm entries' →
      (entries.map (·.1)).Nodup → Rewrite (.dict entry) (.obj entries) (.obj entries')
  | inPresent {shape v v'} : Rewrite shape v v' → Rewrite (.nullable shape) v v'

/-- The reader does not see a change to a value of the shape. -/
def Indifferent {α : Type} (shape : Shape) (read : Json → Option α) : Prop :=
  ∀ ⦃v v' : Json⦄, Rewrite shape v v' → read v = read v'

variable {α β : Type} {shape : Shape} {read : Json → Option α} {v v' : Json}

theorem Rewrite.isNull (h : Rewrite shape v v') : v.isNull = false ∧ v'.isNull = false := by
  induction h with
  | inPresent _ ih => exact ih
  | _ => exact ⟨rfl, rfl⟩

theorem indifferent_leaf : Indifferent .leaf read := nofun

theorem Indifferent.nullable (h : Indifferent shape read) :
    Indifferent (.nullable shape) (dialect.nullable read) := by
  intro v v' hv
  cases hv with
  | inPresent hv =>
    have hnull : dialect.isAbsent v = false ∧ dialect.isAbsent v' = false := hv.isNull
    rw [Dialect.nullable, Dialect.nullable, hnull.1, hnull.2, h hv]

theorem Indifferent.list (h : Indifferent shape read) :
    Indifferent (.list shape) (dialect.list read) := by
  intro v v' hv
  cases hv with
  | inItem hv =>
    show List.mapM read _ = List.mapM read _
    simp only [List.mapM_append, List.mapM_cons, h hv]

/-! ## Maps -/

theorem mapM_eq_some_iff {f : α → Option β} {l : List α} {l' : List β} :
    l.mapM f = some l' ↔ List.Forall₂ (fun a b => f a = some b) l l' := by
  induction l generalizing l' with
  | nil => simp [eq_comm]
  | cons a l ih =>
    rw [List.mapM_cons, List.forall₂_cons_left_iff]
    cases ha : f a with
    | none => simp
    | some b =>
      cases hl : l.mapM f with
      | none => simp [← ih, hl]
      | some bs => simp [← ih, hl, eq_comm]

def readEntries (read : Json → Option α) (entries : List (String × Json)) :
    Option (List (String × α)) :=
  entries.mapM fun e => (read e.2).map fun v => (e.1, v)

theorem dict_obj (entries : List (String × Json)) :
    dialect.dict read (.obj entries) = (readEntries read entries).map Dict.ofList := rfl

theorem keys_of_readEntries {entries : List (String × Json)} {es : List (String × α)}
    (h : readEntries read entries = some es) : es.map (·.1) = entries.map (·.1) := by
  have hall := mapM_eq_some_iff.mp h
  clear h
  induction hall with
  | nil => rfl
  | cons he _ ih =>
    obtain ⟨v, -, rfl⟩ := Option.map_eq_some_iff.mp he
    rw [List.map_cons, List.map_cons, ih]

theorem dict_le_of_perm {entries entries' : List (String × Json)} (h : entries.Perm entries')
    (hn : (entries'.map (·.1)).Nodup) {d : Dict α}
    (hd : dialect.dict read (.obj entries') = some d) :
    dialect.dict read (.obj entries) = some d := by
  rw [dict_obj, Option.map_eq_some_iff] at hd ⊢
  obtain ⟨es', hes', rfl⟩ := hd
  obtain ⟨es, hes, hperm⟩ := List.perm_comp_forall₂ h (mapM_eq_some_iff.mp hes')
  refine ⟨es, mapM_eq_some_iff.mpr hes, (Dict.ofList_eq_of_perm hperm.symm ?_).symm⟩
  rw [keys_of_readEntries hes']
  exact hn

theorem Indifferent.dict (h : Indifferent shape read) :
    Indifferent (.dict shape) (dialect.dict read) := by
  intro v v' hv
  cases hv with
  | inEntry hv =>
    rw [dict_obj, dict_obj, readEntries, readEntries]
    simp only [List.mapM_append, List.mapM_cons, h hv]
  | reorderEntries hperm hn =>
    have hn' := (hperm.map (·.1)).nodup_iff.mp hn
    apply Option.ext
    intro d
    exact ⟨dict_le_of_perm hperm.symm hn, dict_le_of_perm hperm hn'⟩

/-! ## Records -/

/-- The fields of two records are found alike, up to a change in them. -/
def Alike (field : String → Shape) (r r' : Fields Json) : Prop :=
  ∀ name, Option.Rel (Relation.ReflGen (Rewrite (field name))) (r.lookup name) (r'.lookup name)

variable {fields : List FieldName} {field : String → Shape} {r r' : Fields Json}

theorem Alike.of_lookup (h : ∀ name, r.lookup name = r'.lookup name) : Alike field r r' := by
  intro name
  rw [h name]
  cases r'.lookup name with
  | none => exact .none
  | some v => exact .some .refl

theorem alike_inField {name : String} (before after : Fields Json)
    (h : Rewrite (field name) v v') :
    Alike field (before ++ (name, v) :: after) (before ++ (name, v') :: after) := by
  intro key
  rw [List.lookup_append, List.lookup_append]
  cases before.lookup key with
  | some w => exact .some .refl
  | none =>
    by_cases hk : key = name
    · subst hk
      rw [Option.none_or, Option.none_or, List.lookup_cons_self, List.lookup_cons_self]
      exact .some (.single h)
    · have hb : (key == name) = false := by simpa using hk
      simp only [Option.none_or, List.lookup_cons, hb]
      exact Alike.of_lookup (fun _ => rfl) key

theorem Alike.lookup {γ : Type} (h : Alike field r r') (name : String)
    (hread : Indifferent (field name) read) (k : Option (Option α) → γ) :
    k ((r.lookup name).map read) = k ((r'.lookup name).map read) := by
  have hname := h name
  generalize r.lookup name = a, r'.lookup name = b at hname ⊢
  cases hname with
  | none => rfl
  | some hv =>
    cases hv with
    | refl => rfl
    | single hv => rw [Option.map_some, Option.map_some, hread hv]

theorem Alike.required (h : Alike field r r') (name : String)
    (hread : Indifferent (field name) read) : r.required name read = r'.required name read := by
  have hbind (o : Option Json) : o.bind read = (o.map read).join := by cases o <;> rfl
  rw [Fields.required, Fields.required, hbind, hbind]
  exact h.lookup name hread Option.join

theorem Alike.optional (h : Alike field r r') (name : String) {default : α}
    (hread : Indifferent (field name) read) :
    r.optional name default read = r'.optional name default read := by
  have hgetD (r : Fields Json) : r.optional name default read =
      ((r.lookup name).map read).getD (some default) := by
    unfold Fields.optional
    cases r.lookup name <;> rfl
  rw [hgetD, hgetD]
  exact h.lookup name hread (·.getD (some default))

theorem alike_collect {members members' : List (String × Json)}
    (hkeys : (Fields.meant fields members).map (·.1) = (Fields.meant fields members').map (·.1))
    (h : Alike field (Fields.meant fields members) (Fields.meant fields members')) :
    Option.Rel (Alike field) (Fields.collect fields members) (Fields.collect fields members') := by
  rw [Fields.collect_eq, Fields.collect_eq, hkeys]
  split
  · exact .some h
  · exact .none

/-- **The fields of a rewritten record are found alike.** -/
theorem Rewrite.alike (h : Rewrite (.record fields field) v v')
    (hfields : FieldName.Distinct fields) :
    Option.Rel (Alike field) (dialect.record fields v) (dialect.record fields v') := by
  have hobj (members : List (String × Json)) :
      dialect.record fields (.obj members) = Fields.collect fields members := rfl
  -- A record is collected from the members that mean one of its fields (`Fields.meant`), so each
  -- case asks what the change does to these.
  cases h with
  | @reorder _ _ members members' hperm =>
    have hmeant : (Fields.meant fields members).Perm (Fields.meant fields members') :=
      hperm.filterMap _
    rw [hobj, hobj, Fields.collect_eq, Fields.collect_eq]
    by_cases hn : ((Fields.meant fields members).map (·.1)).Nodup
    · rw [if_pos hn, if_pos ((hmeant.map _).nodup_iff.mp hn)]
      exact .some (.of_lookup (lookup_eq_of_perm hmeant hn))
    · rw [if_neg hn, if_neg fun h => hn ((hmeant.map _).nodup_iff.mpr h)]
      exact .none
  | add hfree =>
    rw [hobj, hobj]
    apply alike_collect <;>
      simp only [Fields.meant_append, Fields.meant_cons_of_none (FieldName.resolve_eq_none hfree)]
    exact .of_lookup fun _ => rfl
  | respell hf hname hname' =>
    rw [hobj, hobj]
    apply alike_collect <;>
      simp only [Fields.meant_append, Fields.meant_cons (hfields.resolve hf hname),
        Fields.meant_cons (hfields.resolve hf hname')]
    exact .of_lookup fun _ => rfl
  | inField hf hname hv =>
    rw [hobj, hobj]
    apply alike_collect <;>
      simp only [Fields.meant_append, Fields.meant_cons (hfields.resolve hf hname)]
    · simp
    · exact alike_inField _ _ hv
  -- In a record that is written as a list, fields are found by their places.
  | @inPlace _ _ f v v' before after hf hv =>
    show Option.Rel _ (Fields.ofList fields (before ++ v :: after))
      (Fields.ofList fields (before ++ v' :: after))
    obtain ⟨hlt, hf⟩ := List.getElem?_eq_some_iff.mp hf
    have hsplit : fields = fields.take before.length ++ f :: fields.drop (before.length + 1) := by
      rw [← hf, List.getElem_cons_drop, List.take_append_drop]
    have hzip (w : Json) : (fields.map (·.name)).zip (before ++ w :: after) =
        ((fields.take before.length).map (·.name)).zip before ++
          (f.name, w) :: ((fields.drop (before.length + 1)).map (·.name)).zip after := by
      conv_lhs => rw [hsplit]
      rw [List.map_append, List.zip_append (by simp; omega)]
      rfl
    unfold Fields.ofList
    rw [hzip v, hzip v']
    simp only [List.length_append, List.length_cons]
    split
    · exact .some (alike_inField _ _ hv)
    · exact .none

/-- **A reader of a record is indifferent** if it makes the same of fields that are alike. -/
theorem indifferent_record {k : Fields Json → Option α} (hfields : FieldName.Distinct fields)
    (hk : ∀ r r', Alike field r r' → k r = k r') :
    Indifferent (.record fields field) fun v => (dialect.record fields v).bind k := by
  intro v v' hv
  have halike := hv.alike hfields
  dsimp only
  generalize dialect.record fields v = r, dialect.record fields v' = r' at halike ⊢
  cases halike with
  | none => rfl
  | some h => exact hk _ _ h

/-! ## Codecs -/

/-- The reader gives back what the writer wrote, and does not see a rewriting of a value. -/
structure Faithful (read : Json → Option α) (write : α → Json) (shape : Shape) : Prop where
  readsBack : ∀ a, read (write a) = some a
  rewritten : ∀ v v', Relation.EqvGen (Rewrite shape) v v' → read v = read v'

theorem Faithful.of_indifferent {write : α → Json} (h : ∀ a, read (write a) = some a)
    (hread : Indifferent shape read) : Faithful read write shape where
  readsBack := h
  rewritten v v' hv := by
    induction hv with
    | rel _ _ hv => exact hread hv
    | refl => rfl
    | symm _ _ _ ih => exact ih.symm
    | trans _ _ _ _ _ ih ih' => exact ih.trans ih'

end TradingBot.Json
