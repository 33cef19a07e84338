import CodeGraph.Text.Dedent
import Mathlib.Data.List.DropRight

/-!
# Blanks, pieces and lines

What is left of characters without the blanks at their ends, and how a text falls
into pieces and lines.

* `trim_trimEnd`, `trim_append_of_blank`: trimming does not see blanks that were taken off before.
* `splitAll_joinLines`: joined lines are split into these lines.
* `lines_joinLines`: they have these lines, if the last one is not empty and none
  ends in a carriage return.
-/

namespace CodeGraph.Text

variable {cs l b : List Char} {ls : List (List Char)} {sep : Char}

/-! ## Trimming -/

theorem trimEnd_eq_rdropWhile (cs : List Char) : trimEnd cs = cs.rdropWhile isBlank := rfl

theorem trim_eq_rdropWhile (cs : List Char) :
    trim cs = (cs.dropWhile isBlank).rdropWhile isBlank := rfl

theorem trim_eq_nil_iff : trim cs = [] ↔ ∀ c ∈ cs, isBlank c := by
  rw [trim_eq_rdropWhile, List.rdropWhile_eq_nil_iff]
  constructor
  · intro h
    -- all that is left is blank, so nothing is left
    have hnil : cs.dropWhile isBlank = [] := by
      by_contra hne
      have hhead := List.head_dropWhile_not isBlank hne
      rw [h _ (List.head_mem hne)] at hhead
      cases hhead
    exact List.dropWhile_eq_nil_iff.1 hnil
  · intro h c hc
    rw [List.dropWhile_eq_nil_iff.2 h] at hc
    cases hc

/-- What is trimmed starts with no blank. -/
theorem dropWhile_trim (cs : List Char) : (trim cs).dropWhile isBlank = trim cs := by
  rw [List.dropWhile_eq_self_iff]
  intro hlength
  have hbegins : trim cs <+: cs.dropWhile isBlank := List.rdropWhile_prefix isBlank _
  have hne : cs.dropWhile isBlank ≠ [] := fun h => by
    rw [h, List.prefix_nil] at hbegins
    rw [hbegins] at hlength
    exact absurd hlength (Nat.lt_irrefl 0)
  have hhead := List.head_dropWhile_not isBlank hne
  rw [List.head_eq_getElem, ← hbegins.getElem hlength] at hhead
  rw [hhead]
  exact Bool.false_ne_true

theorem trim_trim (cs : List Char) : trim (trim cs) = trim cs := by
  rw [trim_eq_rdropWhile (trim cs), dropWhile_trim, trim_eq_rdropWhile, List.rdropWhile_idempotent]

theorem trimEnd_trimEnd (cs : List Char) : trimEnd (trimEnd cs) = trimEnd cs :=
  List.rdropWhile_idempotent isBlank cs

theorem trimEnd_isPrefix (cs : List Char) : trimEnd cs <+: cs := List.rdropWhile_prefix isBlank cs

theorem trimEnd_concat_of_blank {c : Char} (h : isBlank c) (cs : List Char) :
    trimEnd (cs ++ [c]) = trimEnd cs :=
  List.rdropWhile_concat_pos isBlank cs c h

/-- No blank ends what has been trimmed at its end. -/
theorem not_isBlank_of_mem_getLast?_trimEnd {c : Char} (h : c ∈ (trimEnd cs).getLast?) :
    ¬isBlank c := by
  rw [Option.mem_def, List.getLast?_eq_some_iff] at h
  obtain ⟨front, hfront⟩ := h
  intro hblank
  have hself := trimEnd_trimEnd cs
  rw [hfront, trimEnd_concat_of_blank hblank] at hself
  have hlength := (trimEnd_isPrefix front).length_le
  rw [hself, List.length_append] at hlength
  exact absurd hlength (Nat.not_succ_le_self _)

theorem trim_append_of_blank (h : ∀ c ∈ b, isBlank c) (cs : List Char) :
    trim (b ++ cs) = trim cs := by
  rw [trim_eq_rdropWhile, trim_eq_rdropWhile, List.dropWhile_append_of_pos h]

theorem trim_concat_of_blank {c : Char} (h : isBlank c) (cs : List Char) :
    trim (cs ++ [c]) = trim cs := by
  rw [trim_eq_rdropWhile, trim_eq_rdropWhile, List.dropWhile_append]
  split
  case isTrue hempty =>
    rw [List.isEmpty_iff.1 hempty, List.dropWhile_cons_of_pos h]
    rfl
  case isFalse => exact List.rdropWhile_concat_pos isBlank _ c h

theorem trim_trimEnd (cs : List Char) : trim (trimEnd cs) = trim cs := by
  induction cs using List.reverseRecOn with
  | nil => rfl
  | append_singleton cs c ih =>
    by_cases hc : isBlank c
    · rw [trimEnd_concat_of_blank hc, ih, trim_concat_of_blank hc]
    · rw [trimEnd_eq_rdropWhile, List.rdropWhile_concat_neg isBlank cs c hc]

/-- What is not blank as a whole keeps its blanks at the start. -/
theorem takeWhile_trimEnd (h : ¬∀ c ∈ cs, isBlank c) :
    (trimEnd cs).takeWhile isBlank = cs.takeWhile isBlank := by
  obtain ⟨behind, hbehind⟩ := trimEnd_isPrefix cs
  conv_rhs => rw [← hbehind, List.takeWhile_append]
  refine (if_neg fun hlength => h ?_).symm
  -- otherwise all that is left is blank, so there was nothing else
  have hall := (List.takeWhile_prefix (l := trimEnd cs) isBlank).eq_of_length hlength
  rw [← trim_eq_nil_iff, ← trim_trimEnd, trim_eq_nil_iff]
  exact List.takeWhile_eq_self_iff.1 hall

/-! ## Pieces -/

theorem splitAll_eq_splitOn (sep : Char) (cs : List Char) : splitAll sep cs = cs.splitOn sep := by
  induction cs with
  | nil => rfl
  | cons c cs ih =>
    simp only [splitAll, ih, List.splitOn, List.splitOnP_cons_eq_if_modifyHead]
    by_cases hc : c = sep
    · rw [if_pos hc, if_pos (beq_iff_eq.2 hc)]
    · rw [if_neg hc, if_neg (mt beq_iff_eq.1 hc)]
      obtain ⟨piece, pieces, hpieces⟩ :=
        List.exists_cons_of_ne_nil (List.splitOnP_ne_nil (· == sep) cs)
      rw [hpieces]
      rfl

theorem splitAll_ne_nil (sep : Char) (cs : List Char) : splitAll sep cs ≠ [] := by
  rw [splitAll_eq_splitOn]
  exact List.splitOnP_ne_nil _ cs

theorem splitAll_append (sep : Char) (xs ys : List Char) :
    splitAll sep (xs ++ sep :: ys) = splitAll sep xs ++ splitAll sep ys := by
  simp only [splitAll_eq_splitOn]
  exact List.splitOnP_append_cons xs ys (beq_self_eq_true sep)

theorem notMem_of_mem_splitAll (h : l ∈ splitAll sep cs) : sep ∉ l := by
  induction cs generalizing l with
  | nil =>
    rw [List.mem_singleton.1 h]
    exact List.not_mem_nil
  | cons c cs ih =>
    obtain ⟨piece, pieces, hpieces⟩ := List.exists_cons_of_ne_nil (splitAll_ne_nil sep cs)
    rw [splitAll, hpieces] at h
    rw [hpieces] at ih
    split at h
    case isTrue =>
      rcases List.mem_cons.1 h with rfl | h
      · exact List.not_mem_nil
      · exact ih h
    case isFalse hc =>
      rcases List.mem_cons.1 h with rfl | h
      · exact List.not_mem_cons_of_ne_of_not_mem (Ne.symm hc) (ih List.mem_cons_self)
      · exact ih (List.mem_cons_of_mem piece h)

theorem joinLines_eq_intercalate (ls : List (List Char)) :
    joinLines ls = ['\n'].intercalate ls := by
  induction ls with
  | nil => rfl
  | cons l ls ih =>
    cases ls with
    | nil => exact List.intercalate_singleton.symm
    | cons l' ls =>
      rw [joinLines, ih, List.intercalate_cons_cons, List.append_assoc, List.singleton_append]
      exact List.cons_ne_nil l' ls

/-- Lines can be read off the text that joins them. -/
theorem splitAll_joinLines (hne : ls ≠ []) (h : ∀ l ∈ ls, '\n' ∉ l) :
    splitAll '\n' (joinLines ls) = ls := by
  rw [splitAll_eq_splitOn, joinLines_eq_intercalate]
  exact List.splitOn_intercalate '\n' h hne

theorem joinLines_splitAll (cs : List Char) : joinLines (splitAll '\n' cs) = cs := by
  rw [splitAll_eq_splitOn, joinLines_eq_intercalate]
  exact List.intercalate_splitOn '\n'

/-! ## Lines -/

/-- A line that was ended, without the carriage return that belongs to its end. -/
def endedLine (l : List Char) : List Char := if l.getLast? = some '\r' then l.dropLast else l

theorem endedLine_isPrefix (l : List Char) : endedLine l <+: l := by
  unfold endedLine
  split
  · exact List.dropLast_prefix l
  · exact List.prefix_rfl

/-- The lines of a text are its pieces, but for an empty piece at the end. -/
theorem lines_of_splitAll {front : List (List Char)} (h : splitAll '\n' cs = front ++ [l]) :
    lines cs = front.map endedLine ++ if l = [] then [] else [l] := by
  rw [lines, h, List.dropLast_concat, List.getLast?_concat]
  cases l with
  | nil => exact (List.append_nil _).symm
  | cons c l => rfl

theorem exists_splitAll_eq_concat (sep : Char) (cs : List Char) :
    ∃ front l, splitAll sep cs = front ++ [l] :=
  ⟨_, _, (List.dropLast_append_getLast (splitAll_ne_nil sep cs)).symm⟩

theorem notMem_of_mem_lines (h : l ∈ lines cs) : '\n' ∉ l := by
  obtain ⟨front, last, hpieces⟩ := exists_splitAll_eq_concat '\n' cs
  rw [lines_of_splitAll hpieces, List.mem_append] at h
  rcases h with h | h
  · obtain ⟨piece, hpiece, rfl⟩ := List.mem_map.1 h
    have hmem : piece ∈ splitAll '\n' cs := hpieces ▸ List.mem_append_left _ hpiece
    exact fun hl => notMem_of_mem_splitAll hmem ((endedLine_isPrefix piece).subset hl)
  · have hlast : l = last := by
      split at h
      · cases h
      · exact List.mem_singleton.1 h
    exact notMem_of_mem_splitAll
      (hpieces ▸ List.mem_append_right front (List.mem_singleton.2 hlast))

theorem lines_ne_nil (h : cs ≠ []) : lines cs ≠ [] := by
  obtain ⟨front, last, hpieces⟩ := exists_splitAll_eq_concat '\n' cs
  rw [lines_of_splitAll hpieces]
  intro hnil
  obtain ⟨hfront, hlast⟩ := List.append_eq_nil_iff.1 hnil
  refine h ?_
  have hlast' : last = [] := by
    by_contra hne
    rw [if_neg hne] at hlast
    cases hlast
  rw [← joinLines_splitAll cs, hpieces, List.map_eq_nil_iff.1 hfront, hlast']
  rfl

/-- **Joined lines have these lines,** if the last one is not empty and none ends in
a carriage return. -/
theorem lines_joinLines (hne : ls ≠ []) (h : ∀ l ∈ ls, '\n' ∉ l)
    (hreturn : ∀ l ∈ ls, l.getLast? ≠ some '\r') (hlast : [] ∉ ls.getLast?) :
    lines (joinLines ls) = ls := by
  obtain ⟨front, last, rfl⟩ : ∃ front last, ls = front ++ [last] :=
    ⟨_, _, (List.dropLast_append_getLast hne).symm⟩
  rw [lines_of_splitAll (splitAll_joinLines hne h), if_neg (fun hnil => hlast (by simp [hnil]))]
  congr 1
  refine (List.map_congr_left fun l hl => ?_).trans (List.map_id front)
  exact if_neg (hreturn l (List.mem_append_left _ hl))

end CodeGraph.Text
