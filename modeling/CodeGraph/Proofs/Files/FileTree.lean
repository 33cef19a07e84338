import CodeGraph.Files.FileTree

/-!
# What is put into a file tree

A file that could be put at a place is found there, with the bytes that were put (`find?_of_put`,
`find?_of_write`), and it can be written again (`write_of_find?`).
-/

namespace CodeGraph.FileTree

theorem child?_insertEntry (name : String) (c : FileTree) (cs : List (String × FileTree)) :
    (directory (Dict.insertEntry name c cs)).child? name = some c := by
  rw [child?, children, Dict.find?_insertEntry, if_pos rfl, Option.map_some]

/-- A file that was put at a place is there. -/
theorem find?_of_put {t t' : FileTree} {bytes : List UInt8} {place : List String}
    (h : t.put (file bytes) place = .ok t') : t'.find? place = some (file bytes) := by
  induction place generalizing t t' with
  | nil =>
    cases t with
    | file old => cases h; rfl
    | directory cs => cases h
  | cons name rest ih =>
    cases t with
    | file old => cases h
    | directory cs =>
      have hinside : ∀ {inside : Except FileError FileTree},
          (∀ c, inside = .ok c → c.find? rest = some (file bytes)) →
          (inside.map fun c => directory (Dict.insertEntry name c cs)) = .ok t' →
          t'.find? (name :: rest) = some (file bytes) := by
        intro inside hc hmap
        cases inside with
        | error e => cases hmap
        | ok c =>
          cases hmap
          rw [find?, child?_insertEntry]
          exact hc c rfl
      rw [put] at h
      refine hinside (fun c hc => ?_) h
      split at hc
      · exact ih hc
      · split at hc
        case isTrue hempty =>
          cases hc
          rw [List.isEmpty_iff.1 hempty, find?]
        case isFalse => exact ih hc

/-- A file that was written is there. -/
theorem find?_of_write {t t' : FileTree} {bytes : List UInt8} {place : List String}
    (h : t.write place bytes = .ok t') : t'.find? place = some (file bytes) := by
  unfold write at h
  cases hput : t.put empty place.dropLast with
  | error e => rw [hput] at h; cases h
  | ok t'' =>
    rw [hput] at h
    exact find?_of_put h

/-! ## Writing again -/

/-- A directory that is there can be made again, and all in it stays. -/
theorem exists_put_empty {t : FileTree} {place : List String} {cs : List (String × FileTree)}
    (h : t.find? place = some (directory cs)) :
    ∃ t', t.put empty place = .ok t' ∧ t'.find? place = some (directory cs) := by
  induction place generalizing t with
  | nil =>
    cases h
    exact ⟨_, rfl, rfl⟩
  | cons name rest ih =>
    cases t with
    | file bytes => cases h
    | directory outer =>
      rw [find?] at h
      cases hchild : (directory outer).child? name with
      | none =>
        rw [hchild] at h
        cases h
      | some c =>
        rw [hchild] at h
        obtain ⟨c', hput, hfind⟩ := ih h
        refine ⟨directory (Dict.insertEntry name c' outer), ?_, ?_⟩
        · rw [put, hchild]
          exact congrArg (Except.map _) hput
        · rw [find?, child?_insertEntry]
          exact hfind

/-- In a directory that is there, a file can be put in place of none and of a file. -/
theorem exists_put_file {t : FileTree} {place : List String} {cs : List (String × FileTree)}
    {name : String} (h : t.find? place = some (directory cs))
    (hold : ∀ c, (directory cs).child? name = some c → c.isDirectory = false) (bytes : List UInt8) :
    ∃ t', t.put (file bytes) (place ++ [name]) = .ok t' := by
  induction place generalizing t with
  | nil =>
    cases h
    rw [List.nil_append, put]
    cases hchild : (directory cs).child? name with
    | none => exact ⟨_, rfl⟩
    | some c =>
      cases c with
      | file old => exact ⟨_, rfl⟩
      | directory inner => cases hold _ hchild
  | cons outerName rest ih =>
    cases t with
    | file old => cases h
    | directory outer =>
      rw [find?] at h
      cases hchild : (directory outer).child? outerName with
      | none =>
        rw [hchild] at h
        cases h
      | some c =>
        rw [hchild] at h
        obtain ⟨c', hput⟩ := ih h
        rw [List.cons_append, put, hchild]
        exact ⟨_, congrArg (Except.map _) hput⟩

theorem find?_append (t : FileTree) (place rest : List String) :
    t.find? (place ++ rest) = (t.find? place).bind (·.find? rest) := by
  induction place generalizing t with
  | nil => rfl
  | cons name place ih =>
    rw [List.cons_append, find?, find?]
    cases t.child? name with
    | none => rfl
    | some c => exact ih c

/-- **A file that is there can be written again**, whatever its bytes are to be. -/
theorem write_of_find? {t : FileTree} {place : List String} {old : List UInt8} (hplace : place ≠ [])
    (h : t.find? place = some (file old)) (bytes : List UInt8) :
    ∃ t', t.write place bytes = .ok t' := by
  obtain ⟨outer, name, rfl⟩ : ∃ outer name, place = outer ++ [name] :=
    ⟨_, _, (List.dropLast_concat_getLast hplace).symm⟩
  rw [find?_append] at h
  obtain ⟨d, houter, hname⟩ := Option.bind_eq_some_iff.1 h
  cases d with
  | file bytes' => cases hname
  | directory cs =>
    have hold : (directory cs).child? name = some (file old) := by
      rw [find?] at hname
      cases hchild : (directory cs).child? name with
      | none =>
        rw [hchild] at hname
        cases hname
      | some c =>
        rw [hchild] at hname
        exact hname
    obtain ⟨t₁, hput, houter₁⟩ := exists_put_empty houter
    have hfiles : ∀ c, (directory cs).child? name = some c → c.isDirectory = false := by
      intro c hc
      cases hold.symm.trans hc
      rfl
    obtain ⟨t₂, hfile⟩ := exists_put_file houter₁ hfiles bytes
    refine ⟨t₂, ?_⟩
    rw [write, List.dropLast_concat, hput]
    exact hfile

/-- What can be written is no outermost directory. -/
theorem ne_nil_of_write {t t' : FileTree} {place : List String} {bytes : List UInt8}
    (h : t.write place bytes = .ok t') : place ≠ [] := by
  rintro rfl
  cases t with
  | file old => cases h
  | directory cs => cases h

end CodeGraph.FileTree
