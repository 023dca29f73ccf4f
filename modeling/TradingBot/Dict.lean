/-!
# Maps with text keys

**The type** (`Dict`). A list of entries in strictly increasing order of their keys. The order is by
code point, which is also the order of the keys' UTF-8 bytes. A key occurs once, and two maps with
the same entries are equal.

**Building.** `insert` puts an entry in its place and replaces an older one with its key; `ofList`
inserts one entry after another, so the last of several with one key stays.
-/

namespace TradingBot

universe u v

/-- Entries in increasing order of their keys. -/
structure Dict (α : Type u) where
  entries : List (String × α)
  sorted : entries.Pairwise fun a b => a.1 < b.1
deriving DecidableEq

namespace Dict

variable {α : Type u} {β : Type v}

def empty : Dict α := ⟨[], .nil⟩

instance : Inhabited (Dict α) := ⟨empty⟩

instance : EmptyCollection (Dict α) := ⟨empty⟩

@[ext] theorem ext {a b : Dict α} (h : a.entries = b.entries) : a = b := by
  cases a; cases b; cases h; rfl

def get? (d : Dict α) (key : String) : Option α := d.entries.lookup key

def keys (d : Dict α) : List String := d.entries.map (·.1)

def size (d : Dict α) : Nat := d.entries.length

/-! ## Insertion -/

/-- Puts an entry before the first larger key, over an equal one. -/
def insertEntry (key : String) (value : α) : List (String × α) → List (String × α)
  | [] => [(key, value)]
  | (k, v) :: rest =>
    if key < k then (key, value) :: (k, v) :: rest
    else if k < key then (k, v) :: insertEntry key value rest
    else (key, value) :: rest

theorem key_mem_insertEntry {key : String} {value : α} {l : List (String × α)} {e : String × α}
    (h : e ∈ insertEntry key value l) : e.1 = key ∨ e ∈ l := by
  induction l with
  | nil => simp [insertEntry] at h; exact .inl (by rw [h])
  | cons x rest ih =>
    obtain ⟨k, v⟩ := x
    unfold insertEntry at h
    split at h
    · rcases List.mem_cons.1 h with h | h
      · exact .inl (by rw [h])
      · exact .inr h
    · split at h
      · rcases List.mem_cons.1 h with h | h
        · exact .inr (h ▸ List.mem_cons_self)
        · rcases ih h with h | h
          · exact .inl h
          · exact .inr (List.mem_cons_of_mem _ h)
      · rcases List.mem_cons.1 h with h | h
        · exact .inl (by rw [h])
        · exact .inr (List.mem_cons_of_mem _ h)

theorem sorted_insertEntry (key : String) (value : α) {l : List (String × α)}
    (h : l.Pairwise fun a b => a.1 < b.1) :
    (insertEntry key value l).Pairwise fun a b => a.1 < b.1 := by
  induction l with
  | nil => simp [insertEntry]
  | cons x rest ih =>
    obtain ⟨k, v⟩ := x
    have hk := (List.pairwise_cons.1 h).1
    have hrest := (List.pairwise_cons.1 h).2
    unfold insertEntry
    split
    · rename_i hlt
      refine List.pairwise_cons.2 ⟨fun e he => ?_, h⟩
      rcases List.mem_cons.1 he with he | he
      · subst he; exact hlt
      · exact String.lt_trans hlt (hk e he)
    · split
      · rename_i hlt
        refine List.pairwise_cons.2 ⟨fun e he => ?_, ih hrest⟩
        rcases key_mem_insertEntry he with he | he
        · exact he ▸ hlt
        · exact hk e he
      · rename_i h1 h2
        have heq : key = k := String.le_antisymm (String.not_lt.1 h2) (String.not_lt.1 h1)
        exact List.pairwise_cons.2 ⟨fun e he => heq ▸ hk e he, hrest⟩

def insert (d : Dict α) (key : String) (value : α) : Dict α :=
  ⟨insertEntry key value d.entries, sorted_insertEntry key value d.sorted⟩

/-- The map of a list of entries; the last of several with one key stays. -/
def ofList (l : List (String × α)) : Dict α := l.foldl (fun d e => d.insert e.1 e.2) empty

def map (f : α → β) (d : Dict α) : Dict β :=
  ⟨d.entries.map fun e => (e.1, f e.2), List.pairwise_map.2 d.sorted⟩

theorem lookup_insertEntry (key : String) (value : α) (l : List (String × α)) (k : String) :
    (insertEntry key value l).lookup k = if k = key then some value else l.lookup k := by
  induction l with
  | nil =>
    by_cases h : k = key
    · simp [insertEntry, h]
    · have hb : (k == key) = false := by simpa using h
      simp [insertEntry, List.lookup_cons, hb, h]
  | cons x rest ih =>
    obtain ⟨k', v⟩ := x
    unfold insertEntry
    split
    · by_cases h : k = key
      · simp [h]
      · have hb : (k == key) = false := by simpa using h
        rw [List.lookup_cons, hb, if_neg h]
    · split
      · rename_i hlt
        by_cases h : k = k'
        · subst h
          have hne : k ≠ key := fun he => String.lt_irrefl _ (he ▸ hlt)
          simp [hne]
        · have hb : (k == k') = false := by simpa using h
          simp only [List.lookup_cons, hb, ih]
      · rename_i h1 h2
        have heq : key = k' := String.le_antisymm (String.not_lt.1 h2) (String.not_lt.1 h1)
        subst heq
        by_cases h : k = key
        · simp [h]
        · have hb : (k == key) = false := by simpa using h
          simp [List.lookup_cons, hb, h]

@[simp] theorem get?_insert (d : Dict α) (key : String) (value : α) (k : String) :
    (d.insert key value).get? k = if k = key then some value else d.get? k :=
  lookup_insertEntry key value d.entries k

@[simp] theorem get?_empty (k : String) : (empty : Dict α).get? k = none := rfl

end Dict

end TradingBot
