import CodeGraph.Proofs.Graph.Distance

/-!
# How a walk discovers nodes

A walk keeps with each node the relationship through which it first came to it, and that
relationship joins the node with one that is a step nearer to the start (`Graph.Discovers`). What a
traversal reports of a walk is a part of its visits (`reported`) up to a cap (`TraversalSpec.cut`),
with the nodes and the relationships still side by side.

* `Layer.led_visits`: every visit but the one of the start has its discovery.
* `nearestFirst_reported`: the reported nodes by their distances.
* `traverse_discoveries`: the reported relationships are the discoveries of the reported nodes.
-/

namespace CodeGraph

/-- What is left of a list under the cap, if there is one. -/
def TraversalSpec.cut {α : Type} (spec : TraversalSpec) (l : List α) : List α :=
  match spec.cap with
  | none => l
  | some cap => l.take cap

theorem TraversalSpec.cut_sublist {α : Type} (spec : TraversalSpec) (l : List α) :
    (spec.cut l).Sublist l := by
  unfold cut
  cases spec.cap with
  | none => exact .refl l
  | some cap => exact List.take_sublist cap l

theorem TraversalSpec.map_cut {α β : Type} (spec : TraversalSpec) (f : α → β) (l : List α) :
    (spec.cut l).map f = spec.cut (l.map f) := by
  unfold cut
  cases spec.cap with
  | none => rfl
  | some cap => exact List.map_take

/-- A relationship discovers a node: it exists, may be walked and joins the node with one that is
exactly a step nearer to the start. -/
def Graph.Discovers (g : Graph) (spec : TraversalSpec) (start : NodeId) (r : EdgeId)
    (n : NodeId) : Prop :=
  ∃ (e : Edge) (nearer : NodeId) (distance : ℕ),
    g.edges[r]? = some e ∧ spec.allows e.relation ∧
    (e.start = nearer ∧ e.target = n ∨ e.target = nearer ∧ e.start = n) ∧
    (g.joined spec).edist start nearer = distance ∧
      (g.joined spec).edist start n = (distance + 1 : ℕ)

/-- The start is met without a relationship and every other node through its discovery. -/
def Visit.Led (v : Visit) (g : Graph) (spec : TraversalSpec) (start : NodeId) : Prop :=
  match v.via with
  | none => v.node = start
  | some r => g.Discovers spec start r v.node

/-- The nodes that lie at a distance within bounds and have a property, each once,
the nearest first. -/
structure NearestFirst (G : SimpleGraph NodeId) (start : NodeId) (nearest farthest : ℕ)
    (p : NodeId → Prop) (nodes : List NodeId) : Prop where
  nodup : nodes.Nodup
  sorted : nodes.Pairwise fun m n => G.edist start m ≤ G.edist start n
  mem : ∀ n, n ∈ nodes ↔ nearest ≤ G.edist start n ∧ G.edist start n ≤ farthest ∧ p n

theorem NearestFirst.congr {G : SimpleGraph NodeId} {start : NodeId} {nearest farthest : ℕ}
    {p q : NodeId → Prop} {nodes : List NodeId} (h : NearestFirst G start nearest farthest p nodes)
    (hpq : ∀ n, p n ↔ q n) : NearestFirst G start nearest farthest q nodes :=
  ⟨h.nodup, h.sorted, fun n => (h.mem n).trans (and_congr_right' (and_congr_right' (hpq n)))⟩

theorem NearestFirst.start_notMem {G : SimpleGraph NodeId} {start : NodeId} {nearest farthest : ℕ}
    {p : NodeId → Prop} {nodes : List NodeId} (h : NearestFirst G start nearest farthest p nodes)
    (hnearest : 0 < nearest) : start ∉ nodes := by
  intro hmem
  have hle := ((h.mem start).1 hmem).1
  rw [SimpleGraph.edist_self, nonpos_iff_eq_zero, Nat.cast_eq_zero] at hle
  exact hnearest.ne' hle

theorem TraversalSpec.passes_of_label_eq_none {spec : TraversalSpec} (h : spec.label = none)
    (node : Option Node) : spec.Passes node := by
  intro label hlabel
  rw [h] at hlabel
  cases hlabel

theorem TraversalSpec.passes_iff_of_label_eq_some {spec : TraversalSpec} {label : Label}
    (h : spec.label = some label) (node : Option Node) :
    spec.Passes node ↔ ∃ n, node = some n ∧ n.label = label := by
  rw [Passes, h]
  exact ⟨fun hpasses => hpasses label rfl, fun hnode l hl => Option.some.inj hl ▸ hnode⟩

namespace Graph

variable {g : Graph} {spec : TraversalSpec} {start : NodeId}

/-! ## Discoveries -/

/-- Of the ends of a relationship at most one is the further one. -/
theorem Discovers.right_unique {r : EdgeId} {m n : NodeId} (hm : g.Discovers spec start r m)
    (hn : g.Discovers spec start r n) : m = n := by
  obtain ⟨e, a, j, he, -, hends, ha, hm⟩ := hm
  obtain ⟨e', b, k, he', -, hends', hb, hn⟩ := hn
  obtain rfl : e = e' := Option.some.inj (he.symm.trans he')
  by_contra hne
  -- otherwise each of the two is the nearer end of the other
  obtain ⟨rfl, rfl⟩ : a = n ∧ b = m := by grind
  have hj : j = k + 1 := Nat.cast_injective (ha.symm.trans hn)
  have hk : k = j + 1 := Nat.cast_injective (hb.symm.trans hm)
  omega

/-- The start is not discovered. -/
theorem Discovers.ne_start {r : EdgeId} {n : NodeId} (h : g.Discovers spec start r n) :
    n ≠ start := by
  obtain ⟨e, a, k, -, -, -, -, hn⟩ := h
  rintro rfl
  rw [SimpleGraph.edist_self] at hn
  exact absurd (Nat.cast_injective hn) (Nat.succ_ne_zero k).symm

variable {hops : Nat} {seen : List NodeId} {frontier : List Visit}

/-- What one layer reaches is discovered from it. -/
theorem Layer.led_next (h : Layer g spec start hops seen frontier) {found : List (EdgeId × NodeId)}
    {seen' : List NodeId} (hlevel : g.level spec seen (frontier.map (·.node)) = (found, seen')) :
    ∀ v ∈ found.map fun (i, n) => (⟨n, hops + 1, some i⟩ : Visit), v.Led g spec start := by
  intro v hv
  have hfar := ((h.next hlevel).mem_frontier v.node).1 (List.mem_map_of_mem hv)
  obtain ⟨⟨r, n⟩, hx, rfl⟩ := List.mem_map.1 hv
  have hfound : found = (g.level spec seen (frontier.map (·.node))).1 := by rw [hlevel]
  rw [hfound] at hx
  obtain ⟨m, hm, hx⟩ := List.mem_flatMap.1 (mem_of_mem_reach hx)
  obtain ⟨e, he, hallowed, hends⟩ := mem_neighbours.1 hx
  exact ⟨e, m, hops, he, hallowed, hends, (h.mem_frontier m).1 hm, hfar⟩

/-- **Every visit is led to.** -/
theorem Layer.led_visits (h : Layer g spec start hops seen frontier)
    (hled : ∀ v ∈ frontier, v.Led g spec start) (fuel : Nat) :
    ∀ v ∈ g.visits spec fuel hops seen frontier, v.Led g spec start := by
  fun_induction g.visits spec fuel hops seen frontier with
  | case1 => exact hled
  | case2 => exact hled
  | case3 fuel hops seen frontier hne found seen' hlevel ih =>
    intro v hv
    exact (List.mem_append.1 hv).elim (hled v) (ih (h.next hlevel) (h.led_next hlevel) v)

theorem led_of_mem_visitsFrom {v : Visit} (hv : v ∈ g.visitsFrom spec start) :
    v.Led g spec start := by
  refine (layer_start g spec start).led_visits (fun w hw => ?_) spec.maxHops v hv
  cases List.mem_singleton.1 hw
  exact rfl

/-! ## What a traversal reports -/

/-- The visits that a traversal reports unless its cap cuts them off. -/
def reported (g : Graph) (spec : TraversalSpec) (start : NodeId) : List Visit :=
  (g.visitsFrom spec start).filter (g.reports spec)

/-- What a traversal from a position of the graph answers. -/
def found (g : Graph) (spec : TraversalSpec) (start : NodeId) : Traversal where
  nodes := spec.cut ((g.reported spec start).map (·.node))
  relationships :=
    if spec.collectRelationships then (spec.cut (g.reported spec start)).filterMap (·.via) else []

theorem traverse_eq_found {id : NodeId} (h : g.position? id = some start) (spec : TraversalSpec) :
    g.traverse id spec = some (g.found spec start) := by
  rw [traverse, h, found, ← TraversalSpec.map_cut]
  rfl

theorem reported_cap (g : Graph) (spec : TraversalSpec) (cap : Option Nat) (start : NodeId) :
    g.reported { spec with cap } start = g.reported spec start := by
  rw [reported, visitsFrom_cap]
  rfl

theorem covers_visitsFrom (g : Graph) (spec : TraversalSpec) (start : NodeId) :
    Covers g spec start 0 spec.maxHops (g.visitsFrom spec start) := by
  have h := (layer_start g spec start).covers_visits spec.maxHops
  rwa [Nat.zero_add] at h

theorem nodup_reported (g : Graph) (spec : TraversalSpec) (start : NodeId) :
    ((g.reported spec start).map (·.node)).Nodup :=
  (covers_visitsFrom g spec start).nodup.sublist (List.filter_sublist.map _)

/-- **The reported nodes are those within the bounds whose label passes**, the nearest first. -/
theorem nearestFirst_reported (g : Graph) (spec : TraversalSpec) (start : NodeId) :
    NearestFirst (g.joined spec) start spec.minHops spec.maxHops (fun n => spec.Passes g.nodes[n]?)
      ((g.reported spec start).map (·.node)) := by
  have hvisits := covers_visitsFrom g spec start
  refine ⟨nodup_reported g spec start, ?_, fun n => ⟨fun hn => ?_, ?_⟩⟩
  · rw [List.pairwise_map]
    refine (hvisits.sorted.sublist List.filter_sublist).imp_of_mem fun {v w} hv hw hle => ?_
    rw [hvisits.hops v (List.mem_of_mem_filter hv), hvisits.hops w (List.mem_of_mem_filter hw)]
    exact_mod_cast hle
  · obtain ⟨v, hv, rfl⟩ := List.mem_map.1 hn
    obtain ⟨hvisit, hreports⟩ := List.mem_filter.1 hv
    obtain ⟨hmin, hpasses⟩ := reports_iff.1 hreports
    refine ⟨?_, ((hvisits.mem v.node).1 (List.mem_map_of_mem hvisit)).2, hpasses⟩
    rw [hvisits.hops v hvisit]
    exact_mod_cast hmin
  · rintro ⟨hmin, hmax, hpasses⟩
    obtain ⟨v, hv, rfl⟩ := List.mem_map.1 ((hvisits.mem n).2 ⟨zero_le, hmax⟩)
    rw [hvisits.hops v hv, Nat.cast_le] at hmin
    exact List.mem_map_of_mem (List.mem_filter.2 ⟨hv, reports_iff.2 ⟨hmin, hpasses⟩⟩)

theorem led_of_mem_reported {v : Visit} (hv : v ∈ g.reported spec start) : v.Led g spec start :=
  led_of_mem_visitsFrom (List.mem_of_mem_filter hv)

/-- Where a walk reports all that it meets but the start, both ends of a discovery
are reported or the start. -/
theorem exists_edge_of_mem_via (hmin : spec.minHops ≤ 1) (hlabel : spec.label = none) {r : EdgeId}
    (hr : r ∈ (g.reported spec start).filterMap (·.via)) :
    ∃ e, g.edges[r]? = some e ∧ spec.allows e.relation ∧
      ∀ n, n = e.start ∨ n = e.target → n = start ∨ n ∈ (g.reported spec start).map (·.node) := by
  have hreported := nearestFirst_reported g spec start
  obtain ⟨v, hv, hvia⟩ := List.mem_filterMap.1 hr
  have hled := led_of_mem_reported hv
  unfold Visit.Led at hled
  rw [hvia] at hled
  obtain ⟨e, nearer, distance, he, hallowed, hends, hnearer, hfurther⟩ := hled
  have hv : v.node ∈ (g.reported spec start).map (·.node) := List.mem_map_of_mem hv
  have hnear : nearer = start ∨ nearer ∈ (g.reported spec start).map (·.node) := by
    rcases Nat.eq_zero_or_pos distance with rfl | hpos
    · rw [Nat.cast_zero, SimpleGraph.edist_eq_zero_iff] at hnearer
      exact .inl hnearer.symm
    · have hmax := ((hreported.mem v.node).1 hv).2.1
      rw [hfurther, Nat.cast_le] at hmax
      refine .inr ((hreported.mem nearer).2 ⟨?_, ?_,
        TraversalSpec.passes_of_label_eq_none hlabel _⟩)
      · rw [hnearer, Nat.cast_le]
        exact hmin.trans hpos
      · rw [hnearer, Nat.cast_le]
        exact Nat.le_of_succ_le hmax
  refine ⟨e, he, hallowed, fun n hn => ?_⟩
  obtain rfl | rfl : n = nearer ∨ n = v.node := by grind
  · exact hnear
  · exact .inr hv

/-- Visits that are led to have their relationships side by side with their nodes,
the start left out. -/
theorem forall₂_discovers {visits : List Visit} (h : ∀ v ∈ visits, v.Led g spec start) :
    List.Forall₂ (fun n r => g.Discovers spec start r n) ((visits.map (·.node)).filter (· ≠ start))
      (visits.filterMap (·.via)) := by
  induction visits with
  | nil => exact .nil
  | cons v visits ih =>
    have hrest := ih fun w hw => h w (List.mem_cons_of_mem v hw)
    have hv := h v List.mem_cons_self
    unfold Visit.Led at hv
    cases hvia : v.via with
    | none =>
      rw [hvia] at hv
      rw [List.map_cons, List.filter_cons_of_neg (by simpa using hv), List.filterMap_cons_none hvia]
      exact hrest
    | some r =>
      rw [hvia] at hv
      rw [List.map_cons, List.filter_cons_of_pos (by simpa using hv.ne_start),
        List.filterMap_cons_some hvia]
      exact .cons hv hrest

/-- Different nodes are discovered through different relationships. -/
theorem nodup_filterMap_via {visits : List Visit} (h : ∀ v ∈ visits, v.Led g spec start)
    (hnodup : (visits.map (·.node)).Nodup) : (visits.filterMap (·.via)).Nodup := by
  refine List.pairwise_filterMap.2
    ((List.pairwise_map.1 hnodup).imp_of_mem fun {v w} hv hw hne => ?_)
  rintro r hr r' hr' rfl
  have hledv := h v hv
  have hledw := h w hw
  unfold Visit.Led at hledv hledw
  rw [hr] at hledv
  rw [hr'] at hledw
  exact hne (hledv.right_unique hledw)

/-- **The reported relationships are the discoveries.** A traversal that collects
relationships reports none twice, and has one for each node that it reports other than the
start, in the order of these nodes: one that exists, may be walked and joins the node with one
exactly a step nearer to the start. -/
theorem traverse_discoveries (g : Graph) {id start : NodeId} (hstart : g.position? id = some start)
    {spec : TraversalSpec} (hcollect : spec.collectRelationships) :
    ∃ t, g.traverse id spec = some t ∧ t.relationships.Nodup ∧
      List.Forall₂ (fun n r => g.Discovers spec start r n)
        (t.nodes.filter (· ≠ start)) t.relationships := by
  have hsublist := spec.cut_sublist (g.reported spec start)
  have hled (v : Visit) (hv : v ∈ spec.cut (g.reported spec start)) : v.Led g spec start :=
    led_of_mem_reported (hsublist.subset hv)
  refine ⟨_, traverse_eq_found hstart spec, ?_, ?_⟩
  · rw [found, if_pos hcollect]
    exact nodup_filterMap_via hled ((nodup_reported g spec start).sublist (hsublist.map _))
  · rw [found, if_pos hcollect, ← TraversalSpec.map_cut]
    exact forall₂_discovers hled

/-- The type is met, but it is no method; of the two calls between `A.f()` and `A.g()` the first is
reported and the call of itself is not. -/
theorem traverse_discoveries_callCycle :
    let spec : TraversalSpec :=
      { minHops := 0, maxHops := 3, label := some .method, cap := some 3,
        collectRelationships := true }
    callCycle.position? 3 = some 3 ∧ spec.collectRelationships ∧
      (∃ t, callCycle.traverse 3 spec = some t ∧ t.relationships.Nodup ∧
        List.Forall₂ (fun n r => callCycle.Discovers spec 3 r n)
          (t.nodes.filter (· ≠ 3)) t.relationships) ∧
      callCycle.traverse 3 spec = some ⟨[3, 2, 1], [4, 2]⟩ := by
  intro spec
  have hstart : callCycle.position? 3 = some 3 := by decide
  exact ⟨hstart, rfl, traverse_discoveries callCycle hstart rfl, by decide +kernel⟩

end Graph

end CodeGraph
