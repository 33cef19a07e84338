import CodeGraph.Chat.Digest
import CodeGraph.Proofs.Text.Budget
import Mathlib.Order.Bounds.Defs

/-!
# What a digest holds

The clusters of a digest are the longest initial run of all clusters whose charges fit the budget:
the estimates of their texts, after that of the preamble if the preamble fits on its own.

* `fitting_spec`: the clusters of a digest are an initial run, and no longer one fits.
* `digest_maximal`: what a digest is, and how its budget is kept.
* `estimate_digest`: the estimate of a whole digest.

The charges do not cover the blank lines before the clusters, nor a preamble that does not fit on
its own, so a digest may exceed its budget (`not_within_tokens`).
-/

namespace CodeGraph

open Text

namespace Digest

/-- The texts of clusters that stand one after another from a position on. -/
def renderings (position : Nat) (clusters : List ClusterDetail) : List String :=
  clusters.mapIdx fun i => render (position + i)

theorem renderings_cons (position : Nat) (c : ClusterDetail) (rest : List ClusterDetail) :
    renderings position (c :: rest) = render position c :: renderings (position + 1) rest := by
  simp only [renderings, List.mapIdx_cons, Nat.add_zero, Nat.add_assoc, Nat.add_comm 1]

/-- **The texts that fit are an initial run, and no longer one fits.** -/
theorem fitting_spec {limit used : Nat} (h : used ≤ limit) (position : Nat)
    (clusters : List ClusterDetail) :
    fitting ⟨limit, used⟩ position clusters =
        (renderings position clusters).take (fitting ⟨limit, used⟩ position clusters).length ∧
      IsGreatest {k | k ≤ clusters.length ∧
          used + totalEstimate ((renderings position clusters).take k) ≤ limit}
        (fitting ⟨limit, used⟩ position clusters).length := by
  induction clusters generalizing used position with
  | nil => exact ⟨rfl, ⟨Nat.le_refl _, h⟩, fun k hk => hk.1⟩
  | cons c rest ih =>
    rw [renderings_cons]
    rcases Nat.lt_or_ge limit (used + estimateTokens (render position c)) with hc | hc
    · -- the first cluster does not fit, so no run but the empty one does
      have hnil : fitting ⟨limit, used⟩ position (c :: rest) = [] := by
        simp only [fitting, Budget.spend_of_lt (b := ⟨limit, used⟩) hc]
      rw [hnil]
      refine ⟨rfl, ⟨Nat.zero_le _, h⟩, fun k hk => ?_⟩
      cases k with
      | zero => exact Nat.le_refl _
      | succ k =>
        have hle := hk.2
        rw [List.take_succ_cons, totalEstimate_cons] at hle
        omega
    · have hcons : fitting ⟨limit, used⟩ position (c :: rest) = render position c ::
          fitting ⟨limit, used + estimateTokens (render position c)⟩ (position + 1) rest := by
        simp only [fitting, Budget.spend_of_le (b := ⟨limit, used⟩) hc]
      obtain ⟨htake, ⟨hlength, hfits⟩, hgreatest⟩ := ih hc (position + 1)
      rw [hcons, List.length_cons, List.take_succ_cons]
      refine ⟨congrArg _ htake, ⟨Nat.succ_le_succ hlength, ?_⟩, fun k hk => ?_⟩
      · rwa [List.take_succ_cons, totalEstimate_cons, ← Nat.add_assoc]
      · cases k with
        | zero => exact Nat.zero_le _
        | succ k =>
          have hle := hk.2
          rw [List.take_succ_cons, totalEstimate_cons, ← Nat.add_assoc] at hle
          exact Nat.succ_le_succ (hgreatest ⟨Nat.le_of_succ_le_succ hk.1, hle⟩)

/-- What follows a cluster that does not fit does not matter. -/
theorem fitting_take_append {b : Budget} {position : Nat} {clusters : List ClusterDetail}
    (h : (fitting b position clusters).length < clusters.length) (more : List ClusterDetail) :
    fitting b position (clusters.take ((fitting b position clusters).length + 1) ++ more) =
      fitting b position clusters := by
  induction clusters generalizing b position with
  | nil => exact absurd h (Nat.not_lt_zero _)
  | cons c rest ih =>
    rcases Nat.lt_or_ge b.limit (b.used + estimateTokens (render position c)) with hc | hc
    · simp only [fitting, Budget.spend_of_lt hc, List.length_nil, List.take_succ_cons,
        List.cons_append]
    · simp only [fitting, Budget.spend_of_le hc, List.length_cons, List.take_succ_cons,
        List.cons_append] at h ⊢
      rw [ih (Nat.lt_of_succ_lt_succ h)]

/-! ## The clusters of a digest -/

/-- The texts of the clusters in a digest. -/
def included (clusters : List ClusterDetail) (tokens : Nat) : List String :=
  fitting ⟨tokens, Budget.firstCharge tokens preamble⟩ 0 clusters

theorem digest_eq (clusters : List ClusterDetail) (tokens : Nat) :
    digest clusters tokens = paragraphs preamble (included clusters tokens) := by
  rw [digest, included]
  -- what the preamble says does not matter
  generalize preamble = first
  rw [← Budget.spend_first]
  rfl

/-- **The clusters of a digest are an initial run,** and no longer one fits. -/
theorem included_spec (clusters : List ClusterDetail) (tokens : Nat) :
    included clusters tokens = (clusters.mapIdx render).take (included clusters tokens).length ∧
      IsGreatest {k | k ≤ clusters.length ∧
          Budget.firstCharge tokens preamble +
            totalEstimate ((clusters.mapIdx render).take k) ≤ tokens}
        (included clusters tokens).length := by
  have hall : renderings 0 clusters = clusters.mapIdx render := by
    simp only [renderings, Nat.zero_add]
  rw [← hall]
  exact fitting_spec (Budget.firstCharge_le tokens preamble) 0 clusters

theorem charged_le (clusters : List ClusterDetail) (tokens : Nat) :
    Budget.firstCharge tokens preamble + totalEstimate (included clusters tokens) ≤ tokens := by
  obtain ⟨htake, ⟨-, hfits⟩, -⟩ := included_spec clusters tokens
  rwa [← htake] at hfits

/-- Only the first line of a cluster's text depends on its position. -/
theorem render_eq (position : Nat) (c : ClusterDetail) :
    render position c = s!"## Cluster {position + 1}\n" ++
      String.join (((c.nodes.flatMap (nodeLines c)) ++ if c.relationships.isEmpty then []
        else "Relationships:" :: c.relationships.map (relationshipLine c)).map (· ++ "\n")) := by
  rw [render, clusterLines, List.append_assoc, List.singleton_append, List.map_cons,
    String.join_cons]
  rfl

/-- **A digest is the preamble and the longest initial run of the clusters whose charges fit,** each
after a blank line and numbered by its position. Nothing behind the first cluster that does not fit
makes a difference. The budget behind it uses the estimates of the texts that it takes, never more
than its limit, and a refusal leaves it as it is. -/
theorem digest_maximal (clusters : List ClusterDetail) (tokens : Nat) :
    let texts := clusters.mapIdx render
    let charged :=
      fun k => (if estimateTokens preamble ≤ tokens then estimateTokens preamble else 0) +
      totalEstimate (texts.take k)
    (∃ k, IsGreatest {k | k ≤ clusters.length ∧ ∀ j ≤ k, charged j ≤ tokens} k ∧
      digest clusters tokens = preamble ++ String.join ((texts.take k).map ("\n\n" ++ ·)) ∧
      (k < clusters.length →
        ∀ more, digest (clusters.take (k + 1) ++ more) tokens = digest clusters tokens)) ∧
    (∃ rest : ClusterDetail → String, ∀ i c, render i c = s!"## Cluster {i + 1}\n" ++ rest c) ∧
    ∀ spent : List String,
      let answers := (Budget.spendAll ⟨tokens, 0⟩ spent).1
      let b := (Budget.spendAll ⟨tokens, 0⟩ spent).2
      answers.length = spent.length ∧ b.limit = tokens ∧
        b.used = Budget.takenEstimate spent answers ∧
        b.used ≤ tokens ∧ b.used + b.remaining = tokens ∧
        ∀ s, ((b.spend s).1 ↔ b.used + estimateTokens s ≤ tokens) ∧
          (¬(b.spend s).1 → (b.spend s).2 = b) := by
  intro texts charged
  refine ⟨⟨(included clusters tokens).length, ?_, ?_, fun hlt more => ?_⟩, ⟨_, render_eq⟩,
    fun spent => ?_⟩
  · obtain ⟨-, ⟨hlength, hfits⟩, hgreatest⟩ := included_spec clusters tokens
    have hmono {i j : Nat} (h : i ≤ j) : charged i ≤ charged j :=
      Nat.add_le_add_left (totalEstimate_take_le texts h) _
    exact ⟨⟨hlength, fun j hj => (hmono hj).trans hfits⟩, fun k hk =>
      hgreatest ⟨hk.1, hk.2 k (Nat.le_refl _)⟩⟩
  · rw [digest_eq]
    exact congrArg (paragraphs preamble) (included_spec clusters tokens).1
  · rw [digest_eq, digest_eq]
    exact congrArg (paragraphs preamble) (fitting_take_append hlt more)
  · obtain ⟨hlength, hlimit, hused, hle⟩ :=
      Budget.spendAll_spec (b := ⟨tokens, 0⟩) (Nat.zero_le _) spent
    refine ⟨hlength, hlimit, hused.trans (Nat.zero_add _), hle, ?_, fun s => ⟨?_, fun hs => ?_⟩⟩
    · rw [Budget.remaining, hlimit]
      exact Nat.add_sub_cancel' hle
    · rw [Budget.fst_spend_iff, hlimit]
    · rw [Budget.fst_spend_iff, Nat.not_le] at hs
      rw [Budget.spend_of_lt hs]

example : Budget.spendAll ⟨3, 0⟩ ["12345678", "12345", "1234"] = ([true, false, true], ⟨3, 3⟩) := by
  decide +kernel

/-! ## The estimate of a digest -/

/-- **The estimate of a digest** is at most what its texts are estimated at, and one token more for
every two blank lines. It keeps to the number of tokens exactly if the preamble does on its own and
the blank lines find room in what is not spent and in what the estimates are rounded up by. -/
theorem estimate_digest (clusters : List ClusterDetail) (tokens : Nat) :
    let texts := included clusters tokens
    let unspent := tokens - (estimateTokens preamble + totalEstimate texts)
    digest clusters tokens = preamble ++ String.join (texts.map ("\n\n" ++ ·)) ∧
      estimateTokens (digest clusters tokens) ≤
        estimateTokens preamble + totalEstimate texts + (texts.length + 1) / 2 ∧
      (estimateTokens (digest clusters tokens) ≤ tokens ↔ estimateTokens preamble ≤ tokens ∧
        2 * texts.length ≤ unspent * charsPerToken +
          (padding preamble + (texts.map padding).sum)) := by
  intro texts unspent
  rw [digest_eq]
  refine ⟨rfl, estimateTokens_paragraphs_le preamble texts, ?_⟩
  by_cases hfits : estimateTokens preamble ≤ tokens
  · have hcharged := charged_le clusters tokens
    rw [Budget.firstCharge, if_pos hfits] at hcharged
    rw [estimateTokens_paragraphs_le_iff hcharged]
    exact (and_iff_right hfits).symm
  · have hle := estimateTokens_le_paragraphs preamble texts
    exact iff_of_false (fun h => hfits (hle.trans h)) fun h => hfits h.1

/-- The method `A.run()` on its own. -/
def oneMethod : ClusterDetail where
  nodes := [⟨1, ["Method"], Dict.ofList [("name", .text "A.run()")]⟩]
  relationships := []

theorem length_preamble : preamble.length = 257 := by
  unfold preamble
  simp only [String.length_append]
  decide +kernel

/-- Two clusters fit and the blank lines before them do not. A cluster fits and the
preamble before it does not. -/
theorem not_within_tokens :
    (included [oneMethod, oneMethod] 81).length = 2 ∧
    81 < estimateTokens (digest [oneMethod, oneMethod] 81) ∧
      (included [oneMethod] 20).length = 1 ∧ 20 < estimateTokens (digest [oneMethod] 20) := by
  have hpreamble : estimateTokens preamble = 65 := by
    rw [estimateTokens, length_preamble, charsPerToken]
  have htwo : included [oneMethod, oneMethod] 81 = [render 0 oneMethod, render 1 oneMethod] := by
    rw [included, Budget.firstCharge, hpreamble]
    decide +kernel
  have hone : included [oneMethod] 20 = [render 0 oneMethod] := by
    rw [included, Budget.firstCharge, hpreamble]
    decide +kernel
  have hlengths : (render 0 oneMethod).length = 32 ∧ (render 1 oneMethod).length = 32 := by
    decide +kernel
  simp only [digest_eq, htwo, hone, ← Nat.not_le, estimateTokens_le_iff, length_paragraphs,
    length_preamble, List.map_cons, List.map_nil, List.sum_cons, List.sum_nil, List.length_cons,
    List.length_nil, hlengths, charsPerToken]
  decide

end Digest

end CodeGraph
