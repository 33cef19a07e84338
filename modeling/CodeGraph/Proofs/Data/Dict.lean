import CodeGraph.Data.Dict

/-!
# Dictionaries from lists

A dictionary is made from a list of bindings by inserting them in order. Made from its own entries
it is the same again (`ofList_toList`); made from any list it has no other bindings
(`mem_of_mem_ofList`) and no more (`size_ofList_le`).

Look-ups in a dictionary from which keys were erased or whose values were changed
are in the last section.
-/

namespace CodeGraph.Dict

variable {α : Type}

/-- Bind several keys, one after another. -/
def insertAll (d : Dict α) (bindings : List (String × α)) : Dict α :=
  bindings.foldl (fun d b => d.insert b.1 b.2) d

theorem insertAll_cons (d : Dict α) (b : String × α) (bindings : List (String × α)) :
    d.insertAll (b :: bindings) = (d.insert b.1 b.2).insertAll bindings :=
  rfl

/-! ## Bindings in order -/

theorem insertEntry_of_forall_lt {key : String} {value : α} {l : List (String × α)}
    (h : ∀ e ∈ l, e.1 < key) : insertEntry key value l = l ++ [(key, value)] := by
  induction l with
  | nil => rfl
  | cons e l ih =>
    have hlt : e.1 < key := h e List.mem_cons_self
    have hnot : ¬key < e.1 := fun hlt' => String.lt_irrefl _ (String.lt_trans hlt hlt')
    have hne : key ≠ e.1 := fun heq => String.lt_irrefl key (heq ▸ hlt)
    rw [insertEntry, if_neg hnot, if_neg hne, ih fun e he => h e (List.mem_cons_of_mem _ he),
      List.cons_append]

/-- Bindings that go on in ascending order are appended. -/
theorem entries_insertAll {bindings : List (String × α)} {d : Dict α}
    (h : (d.entries ++ bindings).Pairwise fun a b => a.1 < b.1) :
    (d.insertAll bindings).entries = d.entries ++ bindings := by
  induction bindings generalizing d with
  | nil => simp [insertAll]
  | cons b bindings ih =>
    have hlast : ∀ e ∈ d.entries, e.1 < b.1 := fun e he =>
      (List.pairwise_append.1 h).2.2 e he b List.mem_cons_self
    have hentries : (d.insert b.1 b.2).entries = d.entries ++ [b] := insertEntry_of_forall_lt hlast
    rw [insertAll_cons, ih, hentries, List.append_assoc, List.singleton_append]
    rwa [hentries, List.append_assoc, List.singleton_append]

theorem ofList_toList (d : Dict α) : ofList d.toList = d := by
  refine ext_entries ?_
  have h : (empty.entries ++ d.entries).Pairwise fun a b : String × α => a.1 < b.1 := d.ascending
  exact entries_insertAll h

/-! ## Bindings in any order -/

theorem length_insertEntry_le (key : String) (value : α) (l : List (String × α)) :
    (insertEntry key value l).length ≤ l.length + 1 := by
  induction l with
  | nil => simp [insertEntry]
  | cons e l ih =>
    rw [insertEntry]
    split
    · simp
    · split
      · simp
      · simpa using ih

theorem size_insert_le (d : Dict α) (key : String) (value : α) :
    (d.insert key value).size ≤ d.size + 1 :=
  length_insertEntry_le key value d.entries

theorem size_insertAll_le (bindings : List (String × α)) (d : Dict α) :
    (d.insertAll bindings).size ≤ d.size + bindings.length := by
  induction bindings generalizing d with
  | nil => simp [insertAll]
  | cons b bindings ih =>
    have hrest := ih (d.insert b.1 b.2)
    have hfirst := d.size_insert_le b.1 b.2
    rw [insertAll_cons, List.length_cons]
    omega

theorem size_ofList_le (bindings : List (String × α)) : (ofList bindings).size ≤ bindings.length :=
  Nat.le_trans (size_insertAll_le bindings empty) (Nat.le_of_eq (Nat.zero_add _))

theorem mem_of_mem_insert {d : Dict α} {key : String} {value : α} {e : String × α}
    (h : e ∈ (d.insert key value).toList) : e = (key, value) ∨ e ∈ d.toList :=
  mem_insertEntry h

theorem mem_of_mem_insertAll {bindings : List (String × α)} {d : Dict α} {e : String × α}
    (h : e ∈ (d.insertAll bindings).toList) : e ∈ d.toList ∨ e ∈ bindings := by
  induction bindings generalizing d with
  | nil => exact .inl h
  | cons b bindings ih =>
    rcases ih h with h | h
    · rcases mem_of_mem_insert h with rfl | h
      · exact .inr List.mem_cons_self
      · exact .inl h
    · exact .inr (List.mem_cons_of_mem _ h)

theorem mem_of_mem_ofList {bindings : List (String × α)} {e : String × α}
    (h : e ∈ (ofList bindings).toList) : e ∈ bindings :=
  (mem_of_mem_insertAll h).resolve_left (by simp [toList, empty])

/-! ## Look-ups after changes -/

theorem get?_erase (d : Dict α) (key other : String) :
    (d.erase key).get? other = if key = other then none else d.get? other := by
  simp only [get?, erase, List.find?_filter]
  split
  case isTrue heq => simp [heq]
  case isFalse hne =>
    refine congrArg (Option.map _) (congrArg (List.find? · d.entries) (funext fun e => ?_))
    by_cases he : e.1 = other
    · simp [he, Ne.symm hne]
    · simp [he]

theorem get?_foldl_erase (d : Dict α) (keys : List String) (other : String) :
    (keys.foldl erase d).get? other = if other ∈ keys then none else d.get? other := by
  induction keys generalizing d with
  | nil => rfl
  | cons key keys ih =>
    rw [List.foldl_cons, ih, get?_erase]
    by_cases h : other ∈ keys
    · simp [h]
    · simp [h, eq_comm]

theorem get?_map {β : Type} (f : α → β) (d : Dict α) (key : String) :
    (d.map f).get? key = (d.get? key).map f := by
  simp only [get?, map, List.find?_map, Option.map_map]
  rfl

end CodeGraph.Dict
