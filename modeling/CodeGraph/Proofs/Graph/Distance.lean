import CodeGraph.Proofs.Graph.Traversal
import Mathlib.Combinatorics.SimpleGraph.Metric

/-!
# Traversals and distances

The relationships that a traversal may walk, taken without their direction, join nodes to a
simple graph (`Graph.joined`), and how far a node is from the start is its distance there: the
length of a shortest walk.

* `edist_eq_succ_iff`: a node is one step further than its nearest neighbour.
* `Layer.next`: the unseen neighbours of the nodes at one distance are those at the next.
* `Layer.covers_visits`: so a walk meets each node within reach once, the nearest first.
* `traverse_exact`: what a traversal reports of them.
-/

namespace CodeGraph

/-- The label of a node is the one to report, if there is one. -/
def TraversalSpec.Passes (spec : TraversalSpec) (node : Option Node) : Prop :=
  ∀ label, spec.label = some label → ∃ n, node = some n ∧ n.label = label

namespace Graph

/-- Nodes are joined by the relationships that may be walked, whichever way these lead. -/
def joined (g : Graph) (spec : TraversalSpec) : SimpleGraph NodeId :=
  .fromRel fun m n => ∃ e ∈ g.edges, spec.allows e.relation ∧ e.start = m ∧ e.target = n

variable {g : Graph} {spec : TraversalSpec}

/-- The neighbours of a node are what it is joined with, and perhaps the node itself. -/
theorem joined_adj_iff {m n : NodeId} :
    (g.joined spec).Adj m n ↔ m ≠ n ∧ n ∈ (g.neighbours spec m).map (·.2) := by
  rw [joined, SimpleGraph.fromRel_adj]
  refine and_congr_right fun _ => ?_
  simp only [List.mem_map, mem_neighbours]
  constructor
  · rintro (⟨e, he, hallowed, hends⟩ | ⟨e, he, hallowed, hends⟩)
    · obtain ⟨i, hi⟩ := Array.mem_iff_getElem?.1 he
      exact ⟨(i, n), ⟨e, hi, hallowed, .inl hends⟩, rfl⟩
    · obtain ⟨i, hi⟩ := Array.mem_iff_getElem?.1 he
      exact ⟨(i, n), ⟨e, hi, hallowed, .inr hends.symm⟩, rfl⟩
  · rintro ⟨⟨i, n'⟩, ⟨e, hi, hallowed, hends⟩, rfl⟩
    have he : e ∈ g.edges := Array.mem_of_getElem? hi
    exact hends.imp (fun h => ⟨e, he, hallowed, h⟩) fun h => ⟨e, he, hallowed, h.symm⟩

/-! ## Shortest walks -/

section

variable {V : Type} {G : SimpleGraph V} {a c : V} {k : ℕ}

/-- **A node is at the next distance** if it is no nearer than that and joined with
one at this distance. -/
theorem edist_eq_succ_iff :
    G.edist a c = (k + 1 : ℕ) ↔ ¬G.edist a c ≤ k ∧ ∃ b, G.edist a b = k ∧ G.Adj b c := by
  have hstep {b : V} (hadj : G.Adj b c) : G.edist a c ≤ G.edist a b + 1 :=
    SimpleGraph.edist_triangle.trans (by rw [SimpleGraph.edist_eq_one_iff_adj.2 hadj])
  constructor
  · intro h
    refine ⟨by rw [h]; exact_mod_cast Nat.not_succ_le_self k, ?_⟩
    obtain ⟨walk, hlength⟩ := SimpleGraph.exists_walk_of_edist_eq_coe h
    -- the last step of a shortest walk
    have hnil : ¬walk.Nil := fun hnil => by
      rw [SimpleGraph.Walk.length_eq_zero_iff.2 hnil] at hlength
      omega
    have hadj := walk.adj_penultimate hnil
    refine ⟨walk.penultimate, le_antisymm ?_ ?_, hadj⟩
    · refine walk.dropLast.edist_le.trans ?_
      have hshorter := walk.length_dropLast_add_one hnil
      exact_mod_cast (by omega : walk.dropLast.length ≤ k)
    · have hlast := hstep hadj
      rw [h, Nat.cast_add, Nat.cast_one] at hlast
      exact (ENat.add_le_add_iff_right (by simp)).1 hlast
  · rintro ⟨hfar, b, hb, hadj⟩
    have hnear := hstep hadj
    rw [hb] at hnear
    rw [Nat.cast_add, Nat.cast_one]
    exact le_antisymm hnear (Order.add_one_le_of_lt (not_le.1 hfar))

/-- On the way to a node there is one at each distance before. -/
theorem exists_edist_eq {m : ℕ} (h : G.edist a c = m) (hk : k ≤ m) : ∃ b, G.edist a b = k := by
  induction m generalizing c with
  | zero =>
    obtain rfl : k = 0 := Nat.le_zero.1 hk
    exact ⟨c, h⟩
  | succ m ih =>
    rcases Nat.lt_or_eq_of_le hk with hlt | rfl
    · obtain ⟨b, hb, -⟩ := (edist_eq_succ_iff.1 h).2
      exact ih hb (Nat.le_of_lt_succ hlt)
    · exact ⟨c, h⟩

end

/-! ## One level -/

theorem mem_snd_reach {l : List (EdgeId × NodeId)} {seen : List NodeId} {n : NodeId} :
    n ∈ (reach seen l).2 ↔ n ∈ seen ∨ n ∈ l.map (·.2) := by
  induction l generalizing seen with
  | nil => simp [reach]
  | cons x rest ih =>
    obtain ⟨i, m⟩ := x
    rw [reach, List.map_cons, List.mem_cons]
    split
    case isTrue hm =>
      have hm : m ∈ seen := List.contains_iff_mem.1 hm
      rw [ih]
      refine or_congr_right' fun hn => (or_iff_right ?_).symm
      rintro rfl
      exact hn hm
    case isFalse =>
      dsimp only
      rw [ih, List.mem_cons, or_assoc, or_left_comm]

theorem mem_fst_reach {l : List (EdgeId × NodeId)} {seen : List NodeId} {n : NodeId} :
    n ∈ (reach seen l).1.map (·.2) ↔ n ∉ seen ∧ n ∈ l.map (·.2) := by
  induction l generalizing seen with
  | nil => simp [reach]
  | cons x rest ih =>
    obtain ⟨i, m⟩ := x
    rw [reach, List.map_cons, List.mem_cons]
    split
    case isTrue hm =>
      have hm : m ∈ seen := List.contains_iff_mem.1 hm
      rw [ih]
      refine and_congr_right fun hn => (or_iff_right ?_).symm
      rintro rfl
      exact hn hm
    case isFalse hm =>
      have hm : m ∉ seen := fun hmem => hm (List.contains_iff_mem.2 hmem)
      dsimp only
      rw [List.map_cons, List.mem_cons, ih, List.mem_cons, not_or]
      by_cases hnm : n = m
      · subst hnm
        simp [hm]
      · simp [hnm]

/-- What is newly reached is listed once. -/
theorem nodup_fst_reach (seen : List NodeId) (l : List (EdgeId × NodeId)) :
    ((reach seen l).1.map (·.2)).Nodup := by
  induction l generalizing seen with
  | nil => exact .nil
  | cons x rest ih =>
    obtain ⟨i, m⟩ := x
    rw [reach]
    split
    case isTrue => exact ih seen
    case isFalse =>
      dsimp only
      rw [List.map_cons, List.nodup_cons]
      exact ⟨fun hm => (mem_fst_reach.1 hm).1 List.mem_cons_self, ih (m :: seen)⟩

/-- A walk has come to the nodes at one distance and has seen those up to it. -/
structure Layer (g : Graph) (spec : TraversalSpec) (start : NodeId) (distance : Nat)
    (seen : List NodeId) (frontier : List Visit) : Prop where
  hops : ∀ v ∈ frontier, v.hops = distance
  nodup : (frontier.map (·.node)).Nodup
  mem_frontier : ∀ n, n ∈ frontier.map (·.node) ↔ (g.joined spec).edist start n = distance
  mem_seen : ∀ n, n ∈ seen ↔ (g.joined spec).edist start n ≤ distance

/-- What a walk meets are the nodes from one distance to another, each once and with its
distance, the nearest first. -/
structure Covers (g : Graph) (spec : TraversalSpec) (start : NodeId) (nearest farthest : Nat)
    (visits : List Visit) : Prop where
  hops : ∀ v ∈ visits, (g.joined spec).edist start v.node = v.hops
  nodup : (visits.map (·.node)).Nodup
  sorted : visits.Pairwise fun v w => v.hops ≤ w.hops
  mem : ∀ n, n ∈ visits.map (·.node) ↔
    nearest ≤ (g.joined spec).edist start n ∧ (g.joined spec).edist start n ≤ farthest

variable {start : NodeId} {hops : Nat} {seen : List NodeId} {frontier : List Visit}

theorem layer_start (g : Graph) (spec : TraversalSpec) (start : NodeId) :
    Layer g spec start 0 [start] [⟨start, 0, none⟩] where
  hops v hv := by cases List.mem_singleton.1 hv; rfl
  nodup := List.nodup_singleton _
  mem_frontier n := by
    rw [List.map_singleton, List.mem_singleton, Nat.cast_zero,
      SimpleGraph.edist_eq_zero_iff, eq_comm]
  mem_seen n := by
    rw [List.mem_singleton, Nat.cast_zero, nonpos_iff_eq_zero,
      SimpleGraph.edist_eq_zero_iff, eq_comm]

/-- **The unseen neighbours of one layer are the next.** -/
theorem Layer.next (h : Layer g spec start hops seen frontier) {found : List (EdgeId × NodeId)}
    {seen' : List NodeId} (hlevel : g.level spec seen (frontier.map (·.node)) = (found, seen')) :
    Layer g spec start (hops + 1) seen' (found.map fun (i, n) => ⟨n, hops + 1, some i⟩) := by
  have hnodes : (found.map fun (i, n) => (⟨n, hops + 1, some i⟩ : Visit)).map (·.node) =
      found.map (·.2) := by
    rw [List.map_map]
    rfl
  have hfound : found = (g.level spec seen (frontier.map (·.node))).1 := by rw [hlevel]
  have hseen : seen' = (g.level spec seen (frontier.map (·.node))).2 := by rw [hlevel]
  -- what is unseen is joined with the layer exactly if it is a neighbour
  have hadj (n : NodeId) (hn : n ∉ seen) :
      n ∈ ((frontier.map (·.node)).flatMap (g.neighbours spec)).map (·.2) ↔
        ∃ m, (g.joined spec).edist start m = hops ∧ (g.joined spec).Adj m n := by
    rw [List.map_flatMap, List.mem_flatMap]
    refine exists_congr fun m => ?_
    rw [h.mem_frontier, joined_adj_iff]
    refine and_congr_right fun hm => (and_iff_right ?_).symm
    rintro rfl
    exact hn ((h.mem_seen m).2 hm.le)
  have hmem (n : NodeId) : n ∈ found.map (·.2) ↔
      (g.joined spec).edist start n = (hops + 1 : ℕ) := by
    rw [hfound, level, mem_fst_reach, edist_eq_succ_iff, ← h.mem_seen]
    exact and_congr_right fun hn => hadj n hn
  refine ⟨fun v hv => ?_, ?_, fun n => by rw [hnodes, hmem], fun n => ?_⟩
  · obtain ⟨x, -, rfl⟩ := List.mem_map.1 hv
    rfl
  · rw [hnodes, hfound]
    exact nodup_fst_reach _ _
  · rw [hseen, level, mem_snd_reach]
    by_cases hn : n ∈ seen
    · have hnear : (g.joined spec).edist start n ≤ hops := (h.mem_seen n).1 hn
      exact ⟨fun _ => hnear.trans (by exact_mod_cast Nat.le_succ hops), fun _ => .inl hn⟩
    · have hfar : ¬(g.joined spec).edist start n ≤ hops := fun hle => hn ((h.mem_seen n).2 hle)
      rw [or_iff_right hn, hadj n hn, ← and_iff_right (b := ∃ _, _) hfar, ← edist_eq_succ_iff]
      refine ⟨le_of_eq, fun hle => le_antisymm hle ?_⟩
      rw [Nat.cast_add, Nat.cast_one]
      exact Order.add_one_le_of_lt (not_le.1 hfar)

/-- A layer alone covers its own distance. -/
theorem Layer.covers (h : Layer g spec start hops seen frontier) :
    Covers g spec start hops hops frontier where
  hops v hv := by
    rw [h.hops v hv]
    exact (h.mem_frontier v.node).1 (List.mem_map_of_mem hv)
  nodup := h.nodup
  sorted := List.pairwise_of_forall_mem_list fun v hv w hw => by rw [h.hops v hv, h.hops w hw]
  mem n := by rw [h.mem_frontier n, and_comm, le_antisymm_iff]

/-- **From a layer on a walk covers all that is within reach.** -/
theorem Layer.covers_visits (h : Layer g spec start hops seen frontier) (fuel : Nat) :
    Covers g spec start hops (hops + fuel) (g.visits spec fuel hops seen frontier) := by
  fun_induction g.visits spec fuel hops seen frontier with
  | case1 fuel hops seen =>
    -- behind an empty layer there is nothing
    refine ⟨fun v hv => absurd hv List.not_mem_nil, .nil, .nil,
      fun n => ⟨fun hn => absurd hn List.not_mem_nil, ?_⟩⟩
    rintro ⟨hnear, hfar⟩
    obtain ⟨k, hk⟩ := ENat.ne_top_iff_exists.1 (ne_top_of_le_ne_top (ENat.natCast_ne_top _) hfar)
    rw [← hk, Nat.cast_le] at hnear
    obtain ⟨b, hb⟩ := exists_edist_eq hk.symm hnear
    exact absurd ((h.mem_frontier b).2 hb) (by simp)
  | case2 hops seen frontier => exact h.covers
  | case3 fuel hops seen frontier hne found seen' hlevel ih =>
    have hrest := ih (h.next hlevel)
    have hfirst := h.covers
    refine ⟨fun v hv => ?_, ?_, ?_, fun n => ?_⟩
    · exact (List.mem_append.1 hv).elim (hfirst.hops v) (hrest.hops v)
    · rw [List.map_append]
      refine hfirst.nodup.append hrest.nodup fun n hn hn' => ?_
      have hnear := ((hfirst.mem n).1 hn).2
      have hfar := ((hrest.mem n).1 hn').1
      exact absurd (hfar.trans hnear) (by exact_mod_cast Nat.not_succ_le_self hops)
    · refine List.pairwise_append.2 ⟨hfirst.sorted, hrest.sorted, fun v hv w hw => ?_⟩
      have hfar := ((hrest.mem w.node).1 (List.mem_map_of_mem hw)).1
      rw [hrest.hops w hw, Nat.cast_le] at hfar
      rw [h.hops v hv]
      exact Nat.le_of_succ_le hfar
    · rw [List.map_append, List.mem_append, hfirst.mem, hrest.mem]
      generalize (g.joined spec).edist start n = d
      cases d with
      | top => simp
      | coe d =>
        simp only [Nat.cast_le]
        omega

/-! ## Traversals -/

/-- A cap has no part in what a walk meets. -/
theorem visitsFrom_cap (g : Graph) (spec : TraversalSpec) (cap : Option Nat) (start : NodeId) :
    g.visitsFrom { spec with cap } start = g.visitsFrom spec start := by
  have hvisits (fuel hops : Nat) (seen : List NodeId) (frontier : List Visit) :
      g.visits { spec with cap } fuel hops seen frontier =
        g.visits spec fuel hops seen frontier := by
    fun_induction g.visits spec fuel hops seen frontier with
    | case1 => rw [visits]
    | case2 hops seen frontier hne => rw [visits]; exact hne
    | case3 fuel hops seen frontier hne found seen' hlevel ih =>
      have hlevel' : g.level { spec with cap } seen (frontier.map (·.node)) =
          (found, seen') := hlevel
      rw [visits, hlevel']
      · exact congrArg _ ih
      · exact hne
  exact hvisits _ _ _ _

theorem reports_iff {v : Visit} :
    g.reports spec v ↔ spec.minHops ≤ v.hops ∧ spec.Passes g.nodes[v.node]? := by
  unfold reports TraversalSpec.Passes
  cases spec.label with
  | none => simp
  | some label => simp

/-- **A traversal is exact.** There is none exactly if the start does not exist. Without a cap it
reports each node once whose distance from the start lies within the bounds and whose label passes,
and no other, by distance; neither the label nor the lower bound has a part in the distance. With a
cap it reports the first of these. -/
theorem traverse_exact (g : Graph) (start : NodeId) (spec : TraversalSpec) :
    (g.traverse start spec = none ↔ g.node? start = none) ∧
    ∀ i, g.position? start = some i → ∃ found : List NodeId,
      found.Nodup ∧
      found.Pairwise (fun m n => (g.joined spec).edist i m ≤ (g.joined spec).edist i n) ∧
      (∀ n, n ∈ found ↔ spec.minHops ≤ (g.joined spec).edist i n ∧
        (g.joined spec).edist i n ≤ spec.maxHops ∧ spec.Passes g.nodes[n]?) ∧
      (g.traverse start { spec with cap := none }).map (·.nodes) = some found ∧
      ∀ cap, (g.traverse start { spec with cap := some cap }).map (·.nodes) =
        some (found.take cap) := by
  refine ⟨?_, fun i hi => ?_⟩
  · rw [← position?_eq_none_iff, traverse]
    cases g.position? start <;> simp
  have hvisits : Covers g spec i 0 (0 + spec.maxHops) (g.visitsFrom spec i) :=
    (layer_start g spec i).covers_visits spec.maxHops
  have hhops {v : Visit} (hv : v ∈ (g.visitsFrom spec i).filter (g.reports spec)) :
      (g.joined spec).edist i v.node = v.hops := hvisits.hops v (List.mem_of_mem_filter hv)
  refine ⟨((g.visitsFrom spec i).filter (g.reports spec)).map (·.node), ?_, ?_, fun n => ?_, ?_,
    fun cap => ?_⟩
  · exact hvisits.nodup.sublist (List.filter_sublist.map _)
  · rw [List.pairwise_map]
    refine (hvisits.sorted.sublist List.filter_sublist).imp_of_mem fun {v w} hv hw hle => ?_
    rw [hhops hv, hhops hw]
    exact_mod_cast hle
  · constructor
    · intro hn
      obtain ⟨v, hv, rfl⟩ := List.mem_map.1 hn
      obtain ⟨hvisit, hreports⟩ := List.mem_filter.1 hv
      obtain ⟨hmin, hpasses⟩ := reports_iff.1 hreports
      have hmax := ((hvisits.mem v.node).1 (List.mem_map_of_mem hvisit)).2
      rw [Nat.zero_add] at hmax
      refine ⟨?_, hmax, hpasses⟩
      rw [hhops hv]
      exact_mod_cast hmin
    · rintro ⟨hmin, hmax, hpasses⟩
      obtain ⟨v, hv, rfl⟩ := List.mem_map.1 ((hvisits.mem n).2 ⟨by simp, by rwa [Nat.zero_add]⟩)
      rw [hvisits.hops v hv, Nat.cast_le] at hmin
      exact List.mem_map_of_mem (List.mem_filter.2 ⟨hv, reports_iff.2 ⟨hmin, hpasses⟩⟩)
  · rw [traverse, hi, ← visitsFrom_cap g spec none]
    rfl
  · rw [traverse, hi, ← visitsFrom_cap g spec (some cap), ← List.map_take]
    rfl

/-- A type whose method calls itself and another, which calls it back and a third. -/
def callCycle : Graph where
  nodes := #[freshNode ⟨.classType, "A"⟩, freshNode ⟨.method, "A.f()"⟩,
    freshNode ⟨.method, "A.g()"⟩, freshNode ⟨.method, "A.h()"⟩]
  edges := #[⟨0, 1, .hasMethod, ∅⟩, ⟨1, 1, .callsMethod, ∅⟩, ⟨1, 2, .callsMethod, ∅⟩,
    ⟨2, 1, .callsMethod, ∅⟩, ⟨2, 3, .callsMethod, ∅⟩]

/-- Against the direction of the calls, the type is three steps from the last method. -/
theorem traverse_exact_callCycle :
    let spec : TraversalSpec := { minHops := 2, maxHops := 3 }
    callCycle.position? 3 = some 3 ∧
      (∃ found : List NodeId,
        found.Nodup ∧
        (∀ n, n ∈ found ↔ 2 ≤ (callCycle.joined spec).edist 3 n ∧
          (callCycle.joined spec).edist 3 n ≤ 3 ∧
          spec.Passes callCycle.nodes[n]?) ∧
        (callCycle.traverse 3 spec).map (·.nodes) = some found ∧
        (callCycle.traverse 3 { spec with cap := some 1 }).map (·.nodes) = some (found.take 1)) ∧
      (callCycle.traverse 3 spec).map (·.nodes) = some [1, 0] := by
  intro spec
  have hstart : callCycle.position? 3 = some 3 := by decide
  obtain ⟨found, hnodup, -, hmem, hall, hcapped⟩ := (traverse_exact callCycle 3 spec).2 3 hstart
  exact ⟨hstart, ⟨found, hnodup, hmem, hall, hcapped 1⟩, by decide +kernel⟩

end Graph

end CodeGraph
