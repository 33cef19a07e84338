import CodeGraph.Text.Tokens
import Mathlib.Algebra.Order.BigOperators.Group.List
import Mathlib.Algebra.Order.Ring.Nat

/-!
# Budgets of tokens

A budget takes a text if its estimate still fits and is left alone by a text that it refuses.

* `estimateTokens_le_iff`, `length_add_padding`: estimates in characters.
* `estimateTokens_paragraphs_le_iff`: what blank lines between texts do to their estimate.
* `Budget.spendAll_spec`: what is used after any texts is what the taken ones are estimated at.
-/

namespace CodeGraph.Text

variable {s : String} {n : Nat}

/-! ## Estimates -/

theorem estimateTokens_le_iff : estimateTokens s ≤ n ↔ s.length ≤ n * charsPerToken := by
  unfold estimateTokens charsPerToken
  omega

/-- The number of characters by which the estimate of a text is rounded up. -/
def padding (s : String) : Nat := estimateTokens s * charsPerToken - s.length

theorem length_add_padding (s : String) : s.length + padding s = estimateTokens s * charsPerToken :=
  Nat.add_sub_cancel' (estimateTokens_le_iff.1 (Nat.le_refl _))

/-- What texts are estimated at, each on its own. -/
def totalEstimate (texts : List String) : Nat := (texts.map estimateTokens).sum

@[simp] theorem totalEstimate_nil : totalEstimate [] = 0 := rfl

@[simp] theorem totalEstimate_cons (s : String) (texts : List String) :
    totalEstimate (s :: texts) = estimateTokens s + totalEstimate texts :=
  List.sum_cons

theorem totalEstimate_take_le (texts : List String) {i j : Nat} (h : i ≤ j) :
    totalEstimate (texts.take i) ≤ totalEstimate (texts.take j) :=
  List.Sublist.sum_le_sum ((List.take_sublist_take_left h).map _) fun _ _ => Nat.zero_le _

/-- The characters of texts and of what their estimates are rounded up by. -/
theorem sum_length_add_sum_padding (texts : List String) :
    (texts.map String.length).sum + (texts.map padding).sum =
      totalEstimate texts * charsPerToken := by
  induction texts with
  | nil => rfl
  | cons s texts ih =>
    have hs := length_add_padding s
    simp only [List.map_cons, List.sum_cons, totalEstimate_cons, Nat.add_mul]
    omega

/-- A text and other texts, each of them after a blank line. -/
def paragraphs (first : String) (texts : List String) : String :=
  first ++ String.join (texts.map ("\n\n" ++ ·))

theorem length_paragraphs (first : String) (texts : List String) :
    (paragraphs first texts).length =
      first.length + 2 * texts.length + (texts.map String.length).sum := by
  have hblank : "\n\n".length = 2 := by decide
  rw [paragraphs, String.length_append, String.length_join, Nat.add_assoc]
  congr 1
  induction texts with
  | nil => rfl
  | cons s texts ih =>
    simp only [List.map_cons, List.sum_cons, List.length_cons, String.length_append, hblank] at ih ⊢
    omega

/-- Blank lines may take one token more for every two of them. -/
theorem estimateTokens_paragraphs_le (first : String) (texts : List String) :
    estimateTokens (paragraphs first texts) ≤
      estimateTokens first + totalEstimate texts + (texts.length + 1) / 2 := by
  have hfirst := length_add_padding first
  have htexts := sum_length_add_sum_padding texts
  rw [estimateTokens_le_iff, length_paragraphs]
  unfold charsPerToken at hfirst htexts ⊢
  omega

/-- The whole is estimated at most at a number that the texts keep to on their own exactly if the
blank lines find room in what is left and in what the estimates are rounded up by. -/
theorem estimateTokens_paragraphs_le_iff {first : String} {texts : List String}
    (h : estimateTokens first + totalEstimate texts ≤ n) :
    estimateTokens (paragraphs first texts) ≤ n ↔
      2 * texts.length ≤ (n - (estimateTokens first + totalEstimate texts)) * charsPerToken +
        (padding first + (texts.map padding).sum) := by
  have hfirst := length_add_padding first
  have htexts := sum_length_add_sum_padding texts
  rw [estimateTokens_le_iff, length_paragraphs]
  unfold charsPerToken at hfirst htexts ⊢
  omega

/-- The whole is estimated at no less than its start. -/
theorem estimateTokens_le_paragraphs (first : String) (texts : List String) :
    estimateTokens first ≤ estimateTokens (paragraphs first texts) := by
  have hwhole := estimateTokens_le_iff.1 (Nat.le_refl (estimateTokens (paragraphs first texts)))
  rw [length_paragraphs] at hwhole
  rw [estimateTokens_le_iff]
  omega

/-! ## Spending -/

namespace Budget

variable {b : Budget}

theorem spend_of_le (h : b.used + estimateTokens s ≤ b.limit) :
    b.spend s = (true, ⟨b.limit, b.used + estimateTokens s⟩) :=
  if_pos h

theorem spend_of_lt (h : b.limit < b.used + estimateTokens s) : b.spend s = (false, b) :=
  if_neg (Nat.not_le_of_lt h)

theorem fst_spend_iff : (b.spend s).1 ↔ b.used + estimateTokens s ≤ b.limit := by
  rcases Nat.lt_or_ge b.limit (b.used + estimateTokens s) with h | h
  · simp [spend_of_lt h, h]
  · simp [spend_of_le h, h]

/-- What a budget is charged for its first text. -/
def firstCharge (limit : Nat) (s : String) : Nat :=
  if estimateTokens s ≤ limit then estimateTokens s else 0

theorem spend_first (limit : Nat) (s : String) :
    (spend ⟨limit, 0⟩ s).2 = ⟨limit, firstCharge limit s⟩ := by
  unfold spend firstCharge
  simp only [Nat.zero_add]
  split <;> rfl

theorem firstCharge_le (limit : Nat) (s : String) : firstCharge limit s ≤ limit := by
  unfold firstCharge
  split
  · assumption
  · exact Nat.zero_le limit

/-- Spend on texts one after another; what is answered to each and what is left. -/
def spendAll (b : Budget) : List String → List Bool × Budget
  | [] => ([], b)
  | s :: rest =>
    let (taken, b) := b.spend s
    let (answers, b) := b.spendAll rest
    (taken :: answers, b)

/-- What the texts are estimated at that were taken, by the answers. -/
def takenEstimate (texts : List String) (answers : List Bool) : Nat :=
  totalEstimate (((texts.zip answers).filter (·.2)).map (·.1))

/-- **A budget uses what the texts that it takes are estimated at** and no more than its limit. -/
theorem spendAll_spec (h : b.used ≤ b.limit) (texts : List String) :
    (b.spendAll texts).1.length = texts.length ∧ (b.spendAll texts).2.limit = b.limit ∧
      (b.spendAll texts).2.used = b.used + takenEstimate texts (b.spendAll texts).1 ∧
      (b.spendAll texts).2.used ≤ b.limit := by
  induction texts generalizing b with
  | nil => exact ⟨rfl, rfl, rfl, h⟩
  | cons s rest ih =>
    rcases Nat.lt_or_ge b.limit (b.used + estimateTokens s) with hs | hs
    · obtain ⟨hlength, hlimit, hused, hle⟩ := ih h
      simp only [spendAll, spend_of_lt hs, List.length_cons, hlength, takenEstimate]
      exact ⟨trivial, hlimit, hused, hle⟩
    · obtain ⟨hlength, hlimit, hused, hle⟩ := ih (b := ⟨b.limit, b.used + estimateTokens s⟩) hs
      simp only [spendAll, spend_of_le hs, List.length_cons, hlength, takenEstimate]
      refine ⟨trivial, hlimit, ?_, hle⟩
      rw [hused, List.zip_cons_cons, List.filter_cons_of_pos rfl, List.map_cons, totalEstimate_cons,
        Nat.add_assoc]
      rfl

end Budget

end CodeGraph.Text
