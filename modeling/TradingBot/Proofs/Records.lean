import Mathlib.Data.List.Forall2
import Mathlib.Data.List.Nodup
import TradingBot.Dialect

/-!
# What counts in a written record

**Lookups** (`lookup_eq_of_perm`). Where no key occurs twice, the order of the entries does not
matter to what is found.

**Maps** (`Dict.get?_ofList`, `Dict.ofList_entries`). A map is what is found in it. It is built
again from its entries, and from them in any order.

**Fields** (`FieldName.Distinct`, `Fields.meant`). If no two fields share a name, a written name
means one field at most. Reading a record keeps the members that mean a field, under the field's
own name, unless a field is written twice (`Fields.collect_eq`).
-/

namespace TradingBot

/-! ## Lookups -/

section Lookup

variable {β : Type} {l l' : List (String × β)} {key : String} {v : β}

theorem lookup_eq_some_iff_mem (hn : (l.map (·.1)).Nodup) :
    l.lookup key = some v ↔ (key, v) ∈ l := by
  induction l with
  | nil => simp
  | cons e l ih =>
    obtain ⟨key', v'⟩ := e
    rw [List.map_cons, List.nodup_cons] at hn
    by_cases hk : key = key'
    · subst hk
      have hout : (key, v) ∉ l := fun hmem => hn.1 (List.mem_map.mpr ⟨_, hmem, rfl⟩)
      simp [hout, eq_comm]
    · have hb : (key == key') = false := by simpa using hk
      simp [List.lookup_cons, hb, hk, ih hn.2]

/-- The order of entries with distinct keys does not matter to a lookup. -/
theorem lookup_eq_of_perm (h : l.Perm l') (hn : (l.map (·.1)).Nodup) (key : String) :
    l.lookup key = l'.lookup key := by
  apply Option.ext
  intro v
  rw [lookup_eq_some_iff_mem hn, lookup_eq_some_iff_mem ((h.map _).nodup_iff.mp hn), h.mem_iff]

theorem lookup_isSome_iff_mem : (l.lookup key).isSome ↔ key ∈ l.map (·.1) := by
  rw [List.lookup_isSome_iff, List.mem_map]
  simp only [beq_iff_eq, eq_comm (a := key)]

end Lookup

/-! ## Maps -/

namespace Dict

variable {α : Type} {d d' : Dict α} {key : String} {v : α}

theorem nodup_keys (d : Dict α) : (d.entries.map (·.1)).Nodup :=
  List.pairwise_map.mpr (d.sorted.imp fun h => String.ne_of_lt h)

theorem get?_eq_some_iff : d.get? key = some v ↔ (key, v) ∈ d.entries :=
  lookup_eq_some_iff_mem d.nodup_keys

theorem ext_get? (h : ∀ key, d.get? key = d'.get? key) : d = d' := by
  have hmem : ∀ e, e ∈ d.entries ↔ e ∈ d'.entries := by
    rintro ⟨key, v⟩
    rw [← get?_eq_some_iff, ← get?_eq_some_iff, h]
  have hperm : d.entries.Perm d'.entries :=
    (List.perm_ext_iff_of_nodup (List.Nodup.of_map _ d.nodup_keys)
      (List.Nodup.of_map _ d'.nodup_keys)).mpr hmem
  refine Dict.ext (hperm.eq_of_pairwise (fun a b _ _ hab hba => ?_) d.sorted d'.sorted)
  exact absurd (String.lt_trans hab hba) (String.lt_irrefl _)

/-- Of several entries with one key the last one counts. -/
theorem get?_ofList (l : List (String × α)) (key : String) :
    (ofList l).get? key = l.reverse.lookup key := by
  have hfold (d : Dict α) : (l.foldl (fun d e => d.insert e.1 e.2) d).get? key =
      (l.reverse.lookup key).or (d.get? key) := by
    induction l generalizing d with
    | nil => rfl
    | cons e l ih =>
      obtain ⟨key', v⟩ := e
      rw [List.foldl_cons, ih, List.reverse_cons, List.lookup_append, Option.or_assoc, get?_insert]
      congr 1
      by_cases hk : key = key'
      · simp [hk]
      · have hb : (key == key') = false := by simpa using hk
        simp [List.lookup_cons, hb, hk]
  rw [ofList, hfold, get?_empty, Option.or_none]

theorem ofList_eq_of_perm {l l' : List (String × α)} (h : l.Perm l') (hn : (l.map (·.1)).Nodup) :
    ofList l = ofList l' := by
  apply ext_get?
  intro key
  rw [get?_ofList, get?_ofList]
  have hperm := ((List.reverse_perm l).trans h).trans (List.reverse_perm l').symm
  refine lookup_eq_of_perm hperm ?_ key
  exact ((List.reverse_perm l).map _).nodup_iff.mpr hn

/-- **A map is built again from its entries.** -/
@[simp] theorem ofList_entries (d : Dict α) : ofList d.entries = d := by
  apply ext_get?
  intro key
  rw [get?_ofList, get?]
  exact (lookup_eq_of_perm (List.reverse_perm _).symm d.nodup_keys key).symm

end Dict

/-! ## Declared fields -/

namespace FieldName

/-- No two of the fields share a name. -/
def Distinct (fields : List FieldName) : Prop :=
  (fields.flatMap fun f => f.name :: f.aliases).Nodup

instance (fields : List FieldName) : Decidable (Distinct fields) :=
  inferInstanceAs (Decidable (List.Nodup _))

variable {fields : List FieldName} {f : FieldName} {written : String}

theorem matches_iff_mem : f.Matches written ↔ written ∈ f.name :: f.aliases :=
  List.mem_cons.symm

theorem matches_name (f : FieldName) : f.Matches f.name := .inl rfl

theorem Distinct.tail (h : Distinct (f :: fields)) : Distinct fields := by
  unfold Distinct at h ⊢
  rw [List.flatMap_cons] at h
  exact (List.nodup_append.mp h).2.1

/-- A name of the first field means none of the others. -/
theorem Distinct.not_matches {g : FieldName} (h : Distinct (f :: fields)) (hg : g ∈ fields)
    (hw : f.Matches written) : ¬ g.Matches written := by
  intro hgw
  unfold Distinct at h
  rw [List.flatMap_cons] at h
  refine (List.nodup_append.mp h).2.2 written (matches_iff_mem.mp hw) written ?_ rfl
  exact List.mem_flatMap.mpr ⟨g, hg, matches_iff_mem.mp hgw⟩

theorem Distinct.resolve (h : Distinct fields) (hf : f ∈ fields) (hw : f.Matches written) :
    resolve fields written = some f.name := by
  induction fields with
  | nil => cases hf
  | cons g fields ih =>
    unfold FieldName.resolve at ih ⊢
    by_cases hg : g.Matches written
    · rw [List.find?_cons_of_pos (by simpa using hg)]
      rcases List.mem_cons.mp hf with rfl | hf
      · rfl
      · exact absurd hw (h.not_matches hf hg)
    · rw [List.find?_cons_of_neg (by simpa using hg)]
      rcases List.mem_cons.mp hf with rfl | hf
      · exact absurd hw hg
      · exact ih h.tail hf

theorem resolve_eq_none (h : ∀ f ∈ fields, ¬ f.Matches written) :
    resolve fields written = none := by
  rw [resolve, List.find?_eq_none.mpr fun f hf => by simpa using h f hf]
  rfl

theorem Distinct.nodup_names (h : Distinct fields) : (fields.map (·.name)).Nodup := by
  refine List.Nodup.sublist ?_ h
  clear h
  induction fields with
  | nil => exact .slnil
  | cons f fields ih =>
    rw [List.map_cons, List.flatMap_cons, List.cons_append]
    exact (ih.trans (List.sublist_append_right _ _)).cons_cons f.name

end FieldName

/-! ## Collecting -/

namespace Fields

variable {ν : Type} {fields : List FieldName}

/-- The members that mean a field, under the field's own name. -/
def meant (fields : List FieldName) (members : List (String × ν)) : Fields ν :=
  members.filterMap fun e => (FieldName.resolve fields e.1).map (·, e.2)

theorem meant_append (members members' : List (String × ν)) :
    meant fields (members ++ members') = meant fields members ++ meant fields members' :=
  List.filterMap_append

theorem meant_cons {written name : String} {v : ν} {members : List (String × ν)}
    (h : FieldName.resolve fields written = some name) :
    meant fields ((written, v) :: members) = (name, v) :: meant fields members := by
  simp [meant, h]

theorem meant_cons_of_none {written : String} {v : ν} {members : List (String × ν)}
    (h : FieldName.resolve fields written = none) :
    meant fields ((written, v) :: members) = meant fields members := by
  simp [meant, h]

/-- **Reading a record keeps what means a field**, unless a field is written twice. -/
theorem collect_eq (members : List (String × ν)) :
    collect fields members =
      if ((meant fields members).map (·.1)).Nodup then some (meant fields members) else none := by
  induction members with
  | nil => rfl
  | cons e members ih =>
    obtain ⟨written, v⟩ := e
    rw [collect, ih]
    cases hr : FieldName.resolve fields written with
    | none =>
      rw [meant_cons_of_none hr]
      split <;> rfl
    | some name =>
      rw [meant_cons hr, List.map_cons]
      by_cases hn : ((meant fields members).map (·.1)).Nodup
      · rw [if_pos hn]
        simp only [Option.bind_eq_bind, Option.bind_some, lookup_isSome_iff_mem, List.nodup_cons,
          hn, and_true]
        by_cases hmem : name ∈ (meant fields members).map (·.1)
        · simp [hmem]
        · simp [hmem]
      · rw [if_neg hn, if_neg fun h => hn (List.nodup_cons.mp h).2]
        rfl

/-- Members under the names of the fields are kept as they are. -/
theorem collect_of_names (h : FieldName.Distinct fields) {members : List (String × ν)}
    (hnames : members.map (·.1) = fields.map (·.name)) : collect fields members = some members := by
  have hmeant : meant fields members = members := by
    have hresolve : ∀ e ∈ members, FieldName.resolve fields e.1 = some e.1 := by
      intro e he
      obtain ⟨f, hf, hname⟩ := List.mem_map.mp (hnames ▸ List.mem_map_of_mem he)
      exact hname ▸ h.resolve hf f.matches_name
    have hsame : ∀ e ∈ members, (FieldName.resolve fields e.1).map (·, e.2) = some e := by
      intro e he
      rw [hresolve e he]
      rfl
    rw [meant, List.filterMap_congr hsame, List.filterMap_some]
  rw [collect_eq, hmeant, if_pos (hnames ▸ h.nodup_names)]

end Fields

end TradingBot
