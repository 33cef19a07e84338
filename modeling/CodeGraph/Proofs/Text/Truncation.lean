import CodeGraph.Proofs.Text.Budget

/-!
# Texts cut down to an estimate

A start of a text is a start of the truncated text exactly if its estimate fits
(`isPrefix_truncate_iff`). So the truncated text is the longest start that fits
(`truncate_longest`). This holds of the texts with less than `2 ^ 64` characters: for these it makes
no difference that the number of characters stops there.
-/

namespace CodeGraph.Text

variable {s p : String} {n m : Nat}

theorem toList_truncate (n : Nat) (s : String) :
    (truncate n s).toList = s.toList.take (charsOf n) :=
  String.toList_ofList

theorem truncate_isPrefix (n : Nat) (s : String) : (truncate n s).toList <+: s.toList := by
  rw [toList_truncate]
  exact List.take_prefix _ _

theorem length_le_of_isPrefix (h : p.toList <+: s.toList) : p.length ≤ s.length := by
  rw [← String.length_toList, ← String.length_toList]
  exact h.length_le

theorem eq_of_isPrefix_of_isPrefix (h : p.toList <+: s.toList)
    (h' : s.toList <+: p.toList) : p = s :=
  String.toList_inj.1 (h.eq_of_length_le h'.length_le)

/-- The number of characters stops beyond every text there is. -/
theorem le_charsOf_iff {k : Nat} (h : k < UInt64.size) : k ≤ charsOf n ↔ k ≤ n * charsPerToken := by
  have hk : k ≤ UInt64.size - 1 := Nat.le_sub_one_of_lt h
  rw [charsOf, Nat.le_min, and_iff_left hk]

/-- **A start of a text is a start of the truncated text exactly if its estimate fits.** -/
theorem isPrefix_truncate_iff (hs : s.length < UInt64.size) (hp : p.toList <+: s.toList) :
    p.toList <+: (truncate n s).toList ↔ estimateTokens p ≤ n := by
  have hlength : p.length < UInt64.size := (length_le_of_isPrefix hp).trans_lt hs
  rw [toList_truncate, List.prefix_take_iff, and_iff_right hp, String.length_toList,
    le_charsOf_iff hlength, estimateTokens_le_iff]

theorem estimateTokens_truncate_le (hs : s.length < UInt64.size) (n : Nat) :
    estimateTokens (truncate n s) ≤ n :=
  (isPrefix_truncate_iff hs (truncate_isPrefix n s)).1 List.prefix_rfl

theorem truncate_eq_self_iff (hs : s.length < UInt64.size) :
    truncate n s = s ↔ estimateTokens s ≤ n := by
  rw [← isPrefix_truncate_iff hs List.prefix_rfl]
  constructor
  · intro h
    exact h.symm ▸ List.prefix_rfl
  · exact eq_of_isPrefix_of_isPrefix (truncate_isPrefix n s)

/-- **A text is cut down to its longest start that fits.** It is left as it is exactly if it fits
itself, so cutting it twice is the same as cutting it once, and more tokens leave no less of it. -/
theorem truncate_longest (hs : s.length < UInt64.size) (n : Nat) :
    (truncate n s).toList <+: s.toList ∧ estimateTokens (truncate n s) ≤ n ∧
      (∀ p : String, p.toList <+: s.toList → (truncate n s).length < p.length →
        n < estimateTokens p) ∧
      (truncate n s = s ↔ estimateTokens s ≤ n) ∧ truncate n (truncate n s) = truncate n s ∧
      ∀ m, n ≤ m → (truncate n s).toList <+: (truncate m s).toList := by
  have hbegins := truncate_isPrefix n s
  have hfits := estimateTokens_truncate_le hs n
  refine ⟨hbegins, hfits, fun p hp hlonger => ?_, truncate_eq_self_iff hs, ?_, fun m hm => ?_⟩
  · by_contra hle
    have hwithin := (isPrefix_truncate_iff hs hp).2 (Nat.le_of_not_lt hle)
    exact absurd (length_le_of_isPrefix hwithin) (Nat.not_le_of_lt hlonger)
  · exact (truncate_eq_self_iff ((length_le_of_isPrefix hbegins).trans_lt hs)).2 hfits
  · exact (isPrefix_truncate_iff hs hbegins).2 (hfits.trans hm)

/-- Five characters of two bytes each are cut behind the fourth, and not at all for
the largest number of tokens. -/
theorem truncate_longest_accents :
    let accents := "ééééé"
    accents.length < UInt64.size ∧ truncate 1 accents = "éééé" ∧
      (truncate 1 accents).toList <+: accents.toList ∧
      1 < estimateTokens accents ∧ truncate (UInt64.size - 1) accents = accents := by
  intro accents
  have hlength : accents.length < UInt64.size := by decide +kernel
  have hcut : truncate 1 accents = "éééé" := by decide +kernel
  obtain ⟨hbegins, -, hlonger, -⟩ := truncate_longest hlength 1
  obtain ⟨-, -, -, hself, -⟩ := truncate_longest hlength (UInt64.size - 1)
  refine ⟨hlength, hcut, hbegins, hlonger accents List.prefix_rfl ?_, hself.2 ?_⟩
  · rw [hcut]
    decide +kernel
  · decide +kernel

end CodeGraph.Text
