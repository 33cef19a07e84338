/-!
# Dictionaries in key order

`Dict α` maps texts to values and holds its entries in strictly ascending key order, so that two
dictionaries answering every look-up alike are equal and a listing needs no sorting.

* `get?_insert`: inserting overwrites one key and leaves the others.
* `ext_get?`: look-ups determine the dictionary.
-/

namespace CodeGraph

/-- A map from texts to values whose entries stand in strictly ascending key order. -/
structure Dict (α : Type) where
  entries : List (String × α)
  ascending : entries.Pairwise (fun a b => a.1 < b.1)

namespace Dict

variable {α β : Type}

theorem ext_entries {d e : Dict α} (h : d.entries = e.entries) : d = e := by
  cases d; cases e; cases h; rfl

instance [DecidableEq α] : DecidableEq (Dict α) := fun d e =>
  if h : d.entries = e.entries then .isTrue (ext_entries h)
  else .isFalse fun heq => h (heq ▸ rfl)

/-- The entries with `key` bound to `value`, in place of any earlier binding of `key`. -/
def insertEntry (key : String) (value : α) : List (String × α) → List (String × α)
  | [] => [(key, value)]
  | (k, v) :: rest =>
    if key < k then (key, value) :: (k, v) :: rest
    else if key = k then (key, value) :: rest
    else (k, v) :: insertEntry key value rest

theorem mem_insertEntry {key : String} {value : α} {e : String × α} {l : List (String × α)} :
    e ∈ insertEntry key value l → e = (key, value) ∨ e ∈ l := by
  induction l with
  | nil => simp [insertEntry]
  | cons hd tl ih =>
    obtain ⟨k, v⟩ := hd
    rw [insertEntry]
    split
    · intro h; simpa using h
    · split
      · intro h
        rcases List.mem_cons.1 h with h | h
        · exact .inl h
        · exact .inr (List.mem_cons_of_mem _ h)
      · intro h
        rcases List.mem_cons.1 h with h | h
        · exact .inr (by simp [h])
        · exact (ih h).imp id (List.mem_cons_of_mem _)

theorem lt_of_not_lt_of_ne {a b : String} (h : ¬a < b) (hne : a ≠ b) : b < a := by
  by_cases hba : b < a
  · exact hba
  · exact absurd (String.le_antisymm (String.not_lt.1 hba) (String.not_lt.1 h)) hne

theorem insertEntry_ascending (key : String) (value : α) {l : List (String × α)}
    (h : l.Pairwise (fun a b => a.1 < b.1)) :
    (insertEntry key value l).Pairwise (fun a b => a.1 < b.1) := by
  induction l with
  | nil => simp [insertEntry]
  | cons hd tl ih =>
    obtain ⟨k, v⟩ := hd
    rw [List.pairwise_cons] at h
    rw [insertEntry]
    split
    case isTrue hlt =>
      refine List.pairwise_cons.2 ⟨fun e he => ?_, List.pairwise_cons.2 h⟩
      rcases List.mem_cons.1 he with rfl | he
      · exact hlt
      · exact String.lt_trans hlt (h.1 e he)
    case isFalse hlt =>
      split
      case isTrue heq =>
        subst heq
        exact List.pairwise_cons.2 h
      case isFalse hne =>
        refine List.pairwise_cons.2 ⟨fun e he => ?_, ih h.2⟩
        rcases mem_insertEntry he with rfl | he
        · exact lt_of_not_lt_of_ne hlt hne
        · exact h.1 e he

/-- The dictionary without entries. -/
def empty : Dict α := ⟨[], List.Pairwise.nil⟩

instance : EmptyCollection (Dict α) := ⟨empty⟩

instance : Inhabited (Dict α) := ⟨empty⟩

/-- Bind `key` to `value`, whatever it was bound to. -/
def insert (d : Dict α) (key : String) (value : α) : Dict α :=
  ⟨insertEntry key value d.entries, insertEntry_ascending key value d.ascending⟩

/-- The value bound to `key`. -/
def get? (d : Dict α) (key : String) : Option α :=
  (d.entries.find? (·.1 == key)).map (·.2)

/-- Forget `key`. -/
def erase (d : Dict α) (key : String) : Dict α :=
  ⟨d.entries.filter (fun e => e.1 != key), d.ascending.filter _⟩

/-- The dictionary of a list of bindings, a later one overwriting an earlier one of its key. -/
def ofList (bindings : List (String × α)) : Dict α :=
  bindings.foldl (fun d b => d.insert b.1 b.2) empty

/-- The entries in ascending key order. -/
def toList (d : Dict α) : List (String × α) := d.entries

/-- The keys in ascending order. -/
def keys (d : Dict α) : List String := d.entries.map (·.1)

def isEmpty (d : Dict α) : Bool := d.entries.isEmpty

def size (d : Dict α) : Nat := d.entries.length

/-- Change every value in place. -/
def map (f : α → β) (d : Dict α) : Dict β :=
  ⟨d.entries.map (fun e => (e.1, f e.2)), List.Pairwise.map _ (fun _ _ h => h) d.ascending⟩

/-! ## Look-ups -/

@[simp] theorem get?_empty (key : String) : (empty : Dict α).get? key = none := rfl

theorem find?_insertEntry (key : String) (value : α) (l : List (String × α)) (other : String) :
    (insertEntry key value l).find? (·.1 == other) =
      if key = other then some (key, value) else l.find? (·.1 == other) := by
  induction l with
  | nil => by_cases h : key = other <;> simp [insertEntry, h]
  | cons hd tl ih =>
    obtain ⟨k, v⟩ := hd
    rw [insertEntry]
    split
    case isTrue hlt => by_cases h : key = other <;> simp [h]
    case isFalse hlt =>
      split
      case isTrue heq =>
        subst heq
        by_cases h : key = other <;> simp [h]
      case isFalse hne =>
        by_cases hk : k = other
        · have : key ≠ other := fun h => hne (h.trans hk.symm)
          simp [hk, this]
        · simp [hk, ih]

theorem get?_insert (d : Dict α) (key : String) (value : α) (other : String) :
    (d.insert key value).get? other = if key = other then some value else d.get? other := by
  simp only [get?, insert, find?_insertEntry]
  split <;> rfl

@[simp] theorem get?_insert_self (d : Dict α) (key : String) (value : α) :
    (d.insert key value).get? key = some value := by
  simp [get?_insert]

theorem get?_insert_of_ne {key other : String} (h : key ≠ other) (d : Dict α) (value : α) :
    (d.insert key value).get? other = d.get? other := by
  simp [get?_insert, h]

theorem mem_of_get? {d : Dict α} {key : String} {value : α} (h : d.get? key = some value) :
    (key, value) ∈ d.entries := by
  obtain ⟨⟨k, v⟩, hf, rfl⟩ := Option.map_eq_some_iff.1 h
  have hk : k = key := by simpa using List.find?_some hf
  exact hk ▸ List.mem_of_find?_eq_some hf

theorem get?_of_mem {d : Dict α} {key : String} {value : α} (h : (key, value) ∈ d.entries) :
    d.get? key = some value := by
  obtain ⟨l, asc⟩ := d
  simp only [get?]
  induction l with
  | nil => simp at h
  | cons hd tl ih =>
    obtain ⟨k, v⟩ := hd
    rw [List.pairwise_cons] at asc
    rcases List.mem_cons.1 h with h | h
    · cases h; simp
    · have : k ≠ key := fun e => String.lt_irrefl key (by simpa [e] using asc.1 _ h)
      simpa [this] using ih asc.2 h

/-- Look-ups determine a dictionary. -/
theorem ext_get? {d e : Dict α} (h : ∀ key, d.get? key = e.get? key) : d = e := by
  have key : ∀ {l m : List (String × α)} (hl : l.Pairwise (fun a b => a.1 < b.1))
      (hm : m.Pairwise (fun a b => a.1 < b.1)),
      (∀ x, x ∈ l ↔ x ∈ m) → l = m := by
    intro l
    induction l with
    | nil =>
      intro m _ _ hx
      exact (List.eq_nil_iff_forall_not_mem.2 fun x hxm => by simpa using (hx x).2 hxm).symm
    | cons a l ih =>
      intro m hl hm hx
      cases m with
      | nil => exact absurd ((hx a).1 (by simp)) (by simp)
      | cons b m =>
        have hl' := List.pairwise_cons.1 hl
        have hm' := List.pairwise_cons.1 hm
        have hab : a = b := by
          rcases List.mem_cons.1 ((hx a).1 (by simp)) with h | h
          · exact h
          · rcases List.mem_cons.1 ((hx b).2 (by simp)) with h' | h'
            · exact h'.symm
            · exact absurd (String.lt_trans (hm'.1 _ h) (hl'.1 _ h')) (String.lt_irrefl _)
        subst hab
        congr 1
        refine ih hl'.2 hm'.2 fun x => ⟨fun hxl => ?_, fun hxm => ?_⟩
        · rcases List.mem_cons.1 ((hx x).1 (List.mem_cons_of_mem _ hxl)) with rfl | h
          · exact absurd (hl'.1 _ hxl) (String.lt_irrefl _)
          · exact h
        · rcases List.mem_cons.1 ((hx x).2 (List.mem_cons_of_mem _ hxm)) with rfl | h
          · exact absurd (hm'.1 _ hxm) (String.lt_irrefl _)
          · exact h
  have hentries : d.entries = e.entries := by
    refine key d.ascending e.ascending fun ⟨k, v⟩ => ⟨fun hx => ?_, fun hx => ?_⟩
    · exact mem_of_get? ((h k) ▸ get?_of_mem hx)
    · exact mem_of_get? ((h k).symm ▸ get?_of_mem hx)
  exact ext_entries hentries

end Dict

end CodeGraph
