import CodeGraph.Files.Path
import CodeGraph.Proofs.Text.Lines

/-!
# Parents of paths

The parent of a path is shorter than it (`length_parent?_lt`), and the path lies within it
(`names_prefix_of_parent?`).
-/

namespace CodeGraph.Path

open Text

/-! ## Names -/

/-- Behind a slash names go on. -/
theorem names_append {path p : String} {tail : List Char}
    (h : path.toList = p.toList ++ '/' :: tail) :
    names path = names p ++ names (String.ofList tail) := by
  rw [names, names, names, pieces, pieces, pieces, h, splitAll_append, List.map_append,
    List.filter_append, String.toList_ofList]

/-! ## Parents -/

/-- What follows the first component of a reversed path. -/
theorem eq_append_of_dropWhile {cs rest : List Char} (h : (cs.dropWhile (· != '/')).drop 1 = rest)
    (hne : rest ≠ []) : cs = cs.takeWhile (· != '/') ++ '/' :: rest := by
  have hsplit := List.takeWhile_append_dropWhile (p := (· != '/')) (l := cs)
  cases hdrop : cs.dropWhile (· != '/') with
  | nil =>
    rw [hdrop] at h
    exact absurd h.symm hne
  | cons c tail =>
    have hhead := List.head?_dropWhile_not (· != '/') cs
    rw [hdrop] at h hhead hsplit
    obtain rfl : c = '/' := by simpa using hhead
    obtain rfl : tail = rest := h
    exact hsplit.symm

/-- Trimming takes off whole components. -/
theorem trimReversed_cases {fuel : Nat} {cs trimmed : List Char}
    (h : trimReversed fuel cs = trimmed) (hne : trimmed ≠ []) :
    cs = trimmed ∨ ∃ junk, cs = junk ++ '/' :: trimmed := by
  induction fuel generalizing cs with
  | zero => exact .inl h
  | succ fuel ih =>
    rw [trimReversed] at h
    split at h
    case isTrue => exact absurd h.symm hne
    case isFalse =>
      split at h
      case isFalse => exact .inl h
      case isTrue =>
        have hrest : (cs.dropWhile (· != '/')).drop 1 ≠ [] := by
          intro hnil
          rw [hnil] at h
          cases fuel <;> exact hne h.symm
        have hcs := eq_append_of_dropWhile rfl hrest
        rcases ih h with hsame | ⟨junk, hjunk⟩
        · exact .inr ⟨_, by rwa [← hsame]⟩
        · exact .inr ⟨cs.takeWhile (· != '/') ++ '/' :: junk,
            by rwa [List.append_assoc, List.cons_append, ← hjunk]⟩

theorem anchor_begins (cs : List Char) : anchor cs <+: cs := by
  unfold anchor
  split
  · exact ⟨_, rfl⟩
  · exact ⟨[], rfl⟩
  · exact ⟨_, rfl⟩
  · exact List.nil_prefix

/-- The names of an anchor do not count. -/
theorem names_ofList_anchor (cs : List Char) : names (String.ofList (anchor cs)) = [] := by
  unfold anchor
  split <;> rfl

/-- The components behind the anchor, those at the end aside that do not count. -/
theorem reversedBody_suffix {cs : List Char} (hne : reversedBody cs ≠ []) :
    reversedBody cs <:+ (cs.drop (anchor cs).length).reverse := by
  have hbody : trimReversed (cs.length + 1) (cs.drop (anchor cs).length).reverse =
      reversedBody cs := rfl
  rcases trimReversed_cases hbody hne with hsame | ⟨junk, hjunk⟩
  · exact hsame ▸ List.suffix_rfl
  · exact ⟨junk ++ ['/'], by rw [List.append_assoc]; exact hjunk.symm⟩

/-- What is left of a reversed path after its first component stands behind a slash in it. -/
theorem slash_trimReversed_suffix {cs rest trimmed : List Char} {fuel : Nat}
    (hrest : (cs.dropWhile (· != '/')).drop 1 = rest) (htrimmed : trimReversed fuel rest = trimmed)
    (hne : trimmed ≠ []) : '/' :: trimmed <:+ cs := by
  have hrestne : rest ≠ [] := by
    rintro rfl
    cases fuel <;> exact hne htrimmed.symm
  have hslash : '/' :: trimmed <:+ '/' :: rest := by
    rcases trimReversed_cases htrimmed hne with rfl | ⟨junk, rfl⟩
    · exact List.suffix_rfl
    · exact ⟨'/' :: junk, rfl⟩
  exact hslash.trans ⟨_, (eq_append_of_dropWhile hrest hrestne).symm⟩

/-- **A parent** is no more than an anchor, or it stands before a slash in the path. -/
theorem parent?_cases {path p : String} (h : parent? path = some p) :
    (names p = [] ∧ p.toList.length < path.toList.length) ∨ ∃ tail,
      path.toList = p.toList ++ '/' :: tail := by
  have hanchor : anchor path.toList ++ path.toList.drop (anchor path.toList).length = path.toList :=
    List.prefix_iff_eq_append.1 (anchor_begins path.toList)
  unfold parent? at h
  dsimp only at h
  split at h
  case h_1 hbody =>
    split at h
    case isTrue hdot =>
      cases h
      refine .inl ⟨rfl, ?_⟩
      rw [← hanchor, eq_of_beq hdot]
      simp
    case isFalse => cases h
  case h_2 hne =>
    generalize hrest : ((reversedBody path.toList).dropWhile (· != '/')).drop 1 = rest at h
    generalize htrimmed : trimReversed (rest.length + 1) rest = trimmed at h
    cases h
    have hbody := reversedBody_suffix hne
    by_cases hnil : trimmed = []
    case pos =>
      subst hnil
      rw [List.reverse_nil, List.append_nil, String.toList_ofList]
      refine .inl ⟨names_ofList_anchor _, ?_⟩
      have hlength := hbody.length_le
      rw [List.length_reverse] at hlength
      have hpos := List.length_pos_iff.2 hne
      have hsum := congrArg List.length hanchor
      rw [List.length_append] at hsum
      omega
    case neg =>
      obtain ⟨before, hbefore⟩ := (slash_trimReversed_suffix hrest htrimmed hnil).trans hbody
      refine .inr ⟨before.reverse, ?_⟩
      have hreverse := congrArg List.reverse hbefore
      rw [List.reverse_reverse, List.reverse_append, List.reverse_cons,
        List.append_assoc] at hreverse
      rw [← hreverse] at hanchor
      rw [String.toList_ofList, List.append_assoc]
      exact hanchor.symm

theorem length_parent?_lt {path p : String} (h : parent? path = some p) :
    p.toList.length < path.toList.length := by
  rcases parent?_cases h with ⟨-, hlt⟩ | ⟨tail, htail⟩
  · exact hlt
  · rw [htail, List.length_append, List.length_cons]
    omega

/-- **A path lies within its parent.** -/
theorem names_prefix_of_parent? {path p : String} (h : parent? path = some p) :
    names p <+: names path := by
  rcases parent?_cases h with ⟨hnil, -⟩ | ⟨tail, htail⟩
  · exact hnil ▸ List.nil_prefix
  · exact ⟨_, (names_append htail).symm⟩

end CodeGraph.Path
