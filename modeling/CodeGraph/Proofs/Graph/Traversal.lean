import CodeGraph.Graph.Traversal
import CodeGraph.Proofs.Graph.Content
import CodeGraph.Proofs.Graph.Listing

/-!
# What a traversal meets

What holds of the start and passes on to neighbours holds of all that a walk meets
(`forall_mem_visits`). So a traversal of a well-formed graph stays in it: `inside_traverse`.
-/

namespace CodeGraph

/-- The visited node exists, and so does the relationship that led to it. -/
structure Visit.Inside (v : Visit) (g : Graph) : Prop where
  node : v.node < g.nodes.size
  via : ∀ i, v.via = some i → i < g.edges.size

namespace Graph

variable {g : Graph} {spec : TraversalSpec}

/-- Neighbours are the other ends of allowed relationships. -/
theorem mem_neighbours {id : NodeId} {x : EdgeId × NodeId} :
    x ∈ g.neighbours spec id ↔ ∃ e, g.edges[x.1]? = some e ∧ spec.allows e.relation ∧
      (e.start = id ∧ e.target = x.2 ∨ e.target = id ∧ e.start = x.2) := by
  obtain ⟨i, n⟩ := x
  simp only [neighbours, List.mem_flatMap, List.mem_ite_nil_right, List.mem_append,
    List.mem_singleton, mem_edgeList, Prod.mk.injEq]
  constructor
  · rintro ⟨⟨j, e⟩, he, hallowed, ⟨hend, rfl, rfl⟩ | ⟨hend, rfl, rfl⟩⟩
    · exact ⟨e, he, hallowed, .inl ⟨hend, rfl⟩⟩
    · exact ⟨e, he, hallowed, .inr ⟨hend, rfl⟩⟩
  · rintro ⟨e, he, hallowed, ⟨hend, rfl⟩ | ⟨hend, rfl⟩⟩
    · exact ⟨(i, e), he, hallowed, .inl ⟨hend, rfl, rfl⟩⟩
    · exact ⟨(i, e), he, hallowed, .inr ⟨hend, rfl, rfl⟩⟩

theorem mem_of_mem_reach {l : List (EdgeId × NodeId)} {seen : List NodeId} {x : EdgeId × NodeId}
    (h : x ∈ (reach seen l).1) : x ∈ l := by
  induction l generalizing seen with
  | nil => exact h
  | cons y rest ih =>
    obtain ⟨i, n⟩ := y
    rw [reach] at h
    split at h
    case isTrue => exact List.mem_cons_of_mem _ (ih h)
    case isFalse =>
      rcases List.mem_cons.1 h with rfl | h
      · exact List.mem_cons_self
      · exact List.mem_cons_of_mem _ (ih h)

/-- **What passes on to neighbours holds of all visits.** -/
theorem forall_mem_visits {P : Visit → Prop}
    (hstep : ∀ v, P v → ∀ x ∈ g.neighbours spec v.node, ∀ hops, P ⟨x.2, hops, some x.1⟩)
    {fuel hops : Nat} {seen : List NodeId} {frontier : List Visit} (h : ∀ v ∈ frontier, P v) :
    ∀ v ∈ g.visits spec fuel hops seen frontier, P v := by
  fun_induction g.visits spec fuel hops seen frontier with
  | case1 => exact h
  | case2 => exact h
  | case3 fuel hops seen frontier hne found seen' hlevel ih =>
    intro v hv
    rcases List.mem_append.1 hv with hv | hv
    · exact h v hv
    · refine ih (fun w hw => ?_) v hv
      obtain ⟨x, hx, rfl⟩ := List.mem_map.1 hw
      have hreached : x ∈ (g.level spec seen (frontier.map (·.node))).1 := by
        rw [hlevel]
        exact hx
      have hfound : x ∈ (frontier.map (·.node)).flatMap (g.neighbours spec) :=
        mem_of_mem_reach hreached
      obtain ⟨id, hid, hx⟩ := List.mem_flatMap.1 hfound
      obtain ⟨w, hw, rfl⟩ := List.mem_map.1 hid
      exact hstep w (h w hw) x hx (hops + 1)

theorem WellFormed.inside_visits (h : g.WellFormed) {start : NodeId}
    (hstart : start < g.nodes.size) :
    ∀ v ∈ g.visitsFrom spec start, v.Inside g := by
  refine forall_mem_visits (fun v _ x hx hops => ?_) fun v hv => ?_
  · obtain ⟨e, he, -, hends⟩ := mem_neighbours.1 hx
    obtain ⟨hfrom, hto⟩ := h.endpoints e (List.mem_of_getElem? (Array.getElem?_toList.trans he))
    refine ⟨?_, fun i hi => ?_⟩
    · rcases hends with ⟨-, htarget⟩ | ⟨-, hstart⟩
      · exact htarget ▸ (position?_eq_some.1 hto).2
      · exact hstart ▸ (position?_eq_some.1 hfrom).2
    · cases hi
      exact (Array.getElem?_eq_some_iff.1 he).1
  · cases List.mem_singleton.1 hv
    exact ⟨hstart, fun i hi => by cases hi⟩

/-- The visits that a traversal reports are some of those it makes, in their order. -/
theorem traverse_eq_some {start i : NodeId} (h : g.position? start = some i)
    (spec : TraversalSpec) :
    ∃ kept : List Visit, kept.Sublist (g.visitsFrom spec i) ∧
      g.traverse start spec =
        some ⟨kept.map (·.node),
          if spec.collectRelationships then kept.filterMap (·.via) else []⟩ := by
  rw [traverse, h]
  refine ⟨_, ?_, rfl⟩
  have hreported := List.filter_sublist (l := g.visitsFrom spec i) (p := g.reports spec)
  cases spec.cap with
  | none => exact hreported
  | some cap => exact (List.take_sublist cap _).trans hreported

/-- **A traversal of a well-formed graph stays in it.** -/
theorem WellFormed.inside_traverse (h : g.WellFormed) {start i : NodeId}
    (hstart : g.position? start = some i) (spec : TraversalSpec) :
    ∃ t, g.traverse start spec = some t ∧ (∀ id ∈ t.nodes, id < g.nodes.size) ∧
      ∀ id ∈ t.relationships, id < g.edges.size := by
  obtain ⟨kept, hkept, htraverse⟩ := traverse_eq_some hstart spec
  have hinside (v : Visit) (hv : v ∈ kept) : v.Inside g :=
    h.inside_visits (position?_eq_some.1 hstart).2 v (hkept.subset hv)
  refine ⟨_, htraverse, fun id hid => ?_, fun id hid => ?_⟩
  · obtain ⟨v, hv, rfl⟩ := List.mem_map.1 hid
    exact (hinside v hv).node
  · dsimp only at hid
    split at hid
    case isTrue =>
      obtain ⟨v, hv, hvia⟩ := List.mem_filterMap.1 hid
      exact (hinside v hv).via id hvia
    case isFalse => cases hid

end Graph

end CodeGraph
