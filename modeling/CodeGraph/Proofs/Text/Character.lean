import CodeGraph.Text.Character

/-!
# Characters in lower case

What holds of the first 128 characters is seen from each of them (`forall_ascii`). Beyond them
`loweringRuns` tells what becomes of a character.

* `lowercase_of_isAscii`: the lower-case form of the first 128 characters.
* `isAsciiDigit_iff_of_mem_lowercase`: a digit becomes a digit, and nothing else does.
-/

namespace CodeGraph.Text

variable {c d : Char}

theorem forall_ascii {P : Char → Prop} (h : ∀ n < 128, P (Char.ofNat n)) {c : Char}
    (hc : isAscii c) : P c := by
  have hascii : c.toNat < 128 := of_decide_eq_true hc
  exact c.ofNat_toNat ▸ h c.toNat hascii

theorem isAsciiDigit_iff : isAsciiDigit c ↔ 48 ≤ c.toNat ∧ c.toNat ≤ 57 := by
  rw [isAsciiDigit, Bool.and_eq_true, decide_eq_true_iff, decide_eq_true_iff]
  rfl

theorem isAsciiLower_iff : isAsciiLower c ↔ 97 ≤ c.toNat ∧ c.toNat ≤ 122 := by
  rw [isAsciiLower, Bool.and_eq_true, decide_eq_true_iff, decide_eq_true_iff]
  rfl

theorem isAscii_of_isAsciiDigit (h : isAsciiDigit c) : isAscii c := by
  have hrange := isAsciiDigit_iff.1 h
  exact decide_eq_true (by omega)

theorem isAscii_of_isAsciiLower (h : isAsciiLower c) : isAscii c := by
  have hrange := isAsciiLower_iff.1 h
  exact decide_eq_true (by omega)

theorem lowercase_of_isAscii (h : isAscii c) : lowercase c = [c.toLower] :=
  forall_ascii (P := fun c => lowercase c = [c.toLower]) (by decide +kernel) h

theorem lowercase_ne_nil (c : Char) : lowercase c ≠ [] := by
  unfold lowercase
  split
  case isTrue => exact List.cons_ne_nil _ _
  case isFalse =>
    split
    case isTrue => exact List.cons_ne_nil _ _
    case isFalse => split <;> exact List.cons_ne_nil _ _

theorem toNat_ofNat_cases (n : Nat) : (Char.ofNat n).toNat = n ∨ (Char.ofNat n).toNat = 0 := by
  by_cases h : n.isValidChar
  · exact .inl (by rw [Char.ofNat, dif_pos h]; rfl)
  · exact .inr (by rw [Char.ofNat, dif_neg h]; rfl)

/-- What becomes of the characters beyond the first 128 lies behind the digits. -/
theorem le_of_mem_loweringRuns : ∀ r ∈ loweringRuns, 58 ≤ (r.1 : Int) + r.2.2.2 := by decide +kernel

/-- **A digit becomes a digit, and nothing else does.** -/
theorem isAsciiDigit_iff_of_mem_lowercase (hd : d ∈ lowercase c) :
    isAsciiDigit d ↔ isAsciiDigit c := by
  by_cases hascii : isAscii c
  · rw [lowercase_of_isAscii hascii] at hd
    obtain rfl := List.mem_singleton.1 hd
    exact forall_ascii (P := fun c => isAsciiDigit c.toLower ↔ isAsciiDigit c)
      (by decide +kernel) hascii
  · have hc : ¬isAsciiDigit c := mt isAscii_of_isAsciiDigit hascii
    refine iff_of_false (fun h => ?_) hc
    rw [lowercase, if_neg hascii] at hd
    split at hd
    case isTrue =>
      rcases List.mem_cons.1 hd with rfl | hd
      · exact absurd h (by decide)
      · rw [List.mem_singleton.1 hd] at h
        exact absurd h (by decide)
    case isFalse =>
      split at hd
      case h_1 first last distance shift hrun =>
        obtain rfl := List.mem_singleton.1 hd
        have hshift := le_of_mem_loweringRuns _ (List.mem_of_find?_eq_some hrun)
        have hfirst : first ≤ c.toNat := by
          have hin := List.find?_some hrun
          simp only [inRun, Bool.and_eq_true, decide_eq_true_iff] at hin
          exact hin.1.1
        rw [isAsciiDigit_iff] at h
        dsimp only at hshift
        rcases toNat_ofNat_cases (c.toNat + shift).toNat with hvalid | hinvalid <;> omega
      case h_2 =>
        obtain rfl := List.mem_singleton.1 hd
        exact hc h

end CodeGraph.Text
