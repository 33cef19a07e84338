import CodeGraph.Proofs.Graph.Content
import CodeGraph.Writing.Entry

/-!
# Runs of upserts

What a list of upserts that all succeed makes of a graph (`Graph.applyAll?`): it adds the keys of
its nodes (`mem_keys_applyAll?`) and the relationships it names (`mem_links_applyAll?`), and of
every attribute it leaves the value that was given last (`attribute?_applyAll?`). Each of these
depends on the upserts alone.

* `applyAll?_idem`: run a second time, the same upserts change nothing.
-/

namespace CodeGraph

/-- The graph after an upsert, if it succeeds. -/
def Upsert.graph? (u : Upsert) (g : Graph) : Option Graph :=
  match u with
  | .node key given => some (g.mergeNode key given).1
  | .edge start target relation =>
    (g.find? start).bind fun a => (g.find? target).bind fun b =>
      (g.mergeEdge a b relation).map (·.1)

/-- The graph after several upserts, if all of them succeed. -/
def Graph.applyAll? (us : List Upsert) (g : Graph) : Option Graph :=
  us.foldlM (fun g u => u.graph? g) g

/-- The value that an upsert gives an attribute. -/
def Upsert.given? (u : Upsert) (key : NodeKey) (name : String) : Option Value :=
  match u with
  | .node k given => if k = key then given.get? name else none
  | .edge _ _ _ => none

/-- The value that the last of several upserts to give one gives an attribute. -/
def lastGiven? (us : List Upsert) (key : NodeKey) (name : String) : Option Value :=
  match us with
  | [] => none
  | u :: us => (lastGiven? us key name).or (u.given? key name)

variable {u : Upsert} {us : List Upsert} {g g' g'' : Graph} {key : NodeKey}

theorem lastGiven?_append (us us' : List Upsert) (key : NodeKey) (name : String) :
    lastGiven? (us ++ us') key name = (lastGiven? us' key name).or (lastGiven? us key name) := by
  induction us with
  | nil => rw [List.nil_append, lastGiven?, Option.or_none]
  | cons u us ih => rw [List.cons_append, lastGiven?, lastGiven?, ih, Option.or_assoc]

theorem exists_of_lastGiven?_eq_some {name : String} {v : Value}
    (h : lastGiven? us key name = some v) :
    ∃ given, .node key given ∈ us ∧ given.get? name = some v := by
  induction us with
  | nil => cases h
  | cons u us ih =>
    rcases Option.or_eq_some_iff.1 h with hrest | ⟨-, hu⟩
    · obtain ⟨given, hmem, hv⟩ := ih hrest
      exact ⟨given, List.mem_cons_of_mem _ hmem, hv⟩
    · cases u with
      | node k given =>
        rw [Upsert.given?] at hu
        split at hu
        · rename_i hk
          exact ⟨given, hk ▸ List.mem_cons_self, hu⟩
        · cases hu
      | edge => cases hu

theorem isSome_lastGiven?_of_mem {name : String} {given : Attributes} (h : .node key given ∈ us)
    (hgiven : (given.get? name).isSome) : (lastGiven? us key name).isSome := by
  induction us with
  | nil => cases h
  | cons u us ih =>
    rw [lastGiven?, Option.isSome_or, Bool.or_eq_true]
    rcases List.mem_cons.1 h with rfl | h
    · rw [Upsert.given?, if_pos rfl]
      exact .inr hgiven
    · exact .inl (ih h)

/-- On a connected store an upsert is one of its graph. -/
theorem Upsert.apply?_ofState (u : Upsert) (state : StoreState) :
    u.apply? (.ofState state) =
      (u.graph? state.graph).map fun graph => .ofState { state with graph } := by
  cases u with
  | node key given => rfl
  | edge start target relation =>
    cases ha : state.graph.find? start with
    | none =>
      simp [graph?, Upsert.apply?, Store.mergeEdge, Store.write, Store.ofState, ha, Except.map,
        Except.toOption]
    | some a =>
      cases hb : state.graph.find? target with
      | none => simp [graph?, Upsert.apply?, Store.mergeEdge, Store.write, Store.ofState, ha, hb,
        Except.map,
          Except.toOption]
      | some b =>
        cases hmerge : state.graph.mergeEdge a b relation <;>
          simp [graph?, Upsert.apply?, Store.mergeEdge, Store.write, Store.ofState, ha, hb, hmerge,
            Except.map, Except.toOption]

namespace Graph

theorem applyAll?_nil (g : Graph) : g.applyAll? [] = some g := rfl

theorem applyAll?_cons (u : Upsert) (us : List Upsert) (g : Graph) :
    g.applyAll? (u :: us) = (u.graph? g).bind (applyAll? us) := rfl

theorem applyAll?_append (us us' : List Upsert) (g : Graph) :
    g.applyAll? (us ++ us') = (g.applyAll? us).bind (applyAll? us') := by
  rw [applyAll?, List.foldlM_append]
  rfl

/-- A successful relationship: both ends are there, and it is old or appended. -/
theorem graph?_edge_eq_some {start target : NodeKey} {relation : Relation}
    (h : (Upsert.edge start target relation).graph? g = some g') :
    ∃ a b i j, g.find? start = some a ∧ g.find? target = some b ∧ g.position? a = some i ∧
      g.position? b = some j ∧
      (g' = g ∧ (i, j, relation) ∈ g.ends ∨
        g.findEdge? i j relation = none ∧
          g' = { g with edges := g.edges.push ⟨i, j, relation, Dict.empty⟩ }) := by
  obtain ⟨a, ha, h⟩ := Option.bind_eq_some_iff.1 h
  obtain ⟨b, hb, h⟩ := Option.bind_eq_some_iff.1 h
  obtain ⟨⟨_, id, isNew⟩, hmerge, rfl⟩ := Option.map_eq_some_iff.1 h
  cases hi : g.position? a with
  | none => rw [mergeEdge_eq_none_iff.2 (.inl hi)] at hmerge; cases hmerge
  | some i =>
    cases hj : g.position? b with
    | none => rw [mergeEdge_eq_none_iff.2 (.inr hj)] at hmerge; cases hmerge
    | some j =>
      refine ⟨a, b, i, j, ha, hb, hi, hj, ?_⟩
      cases hfind : g.findEdge? i j relation with
      | none =>
        rw [mergeEdge_of_findEdge?_eq_none hi hj hfind] at hmerge
        cases hmerge
        exact .inr ⟨rfl, rfl⟩
      | some id =>
        rw [mergeEdge_of_findEdge?_eq_some hi hj hfind] at hmerge
        cases hmerge
        refine .inl ⟨rfl, ?_⟩
        rw [findEdge?_eq_findIdx?] at hfind
        obtain ⟨hlt, hx, -⟩ := List.findIdx?_eq_some_iff_getElem.1 hfind
        exact eq_of_beq hx ▸ List.getElem_mem hlt

theorem nodes_graph?_edge {start target : NodeKey} {relation : Relation}
    (h : (Upsert.edge start target relation).graph? g = some g') : g'.nodes = g.nodes := by
  obtain ⟨a, b, i, j, -, -, -, -, ⟨rfl, -⟩ | ⟨-, rfl⟩⟩ := graph?_edge_eq_some h <;> rfl

theorem extends_graph? (h : u.graph? g = some g') : Extends g g' := by
  cases u with
  | node key given =>
    cases h
    exact extends_mergeNode g key given
  | edge start target relation =>
    obtain ⟨a, -, h⟩ := Option.bind_eq_some_iff.1 h
    obtain ⟨b, -, h⟩ := Option.bind_eq_some_iff.1 h
    obtain ⟨⟨_, id, isNew⟩, hmerge, rfl⟩ := Option.map_eq_some_iff.1 h
    exact extends_mergeEdge hmerge

theorem extends_applyAll? (h : g.applyAll? us = some g') : Extends g g' := by
  induction us generalizing g with
  | nil => cases h; exact .refl _
  | cons u us ih =>
    obtain ⟨g₁, hu, hus⟩ := Option.bind_eq_some_iff.1 h
    exact (extends_graph? hu).trans (ih hus)

theorem WellFormed.graph? (h : g.WellFormed) (hu : u.graph? g = some g') : g'.WellFormed := by
  cases u with
  | node key given =>
    cases hu
    exact h.mergeNode key given
  | edge start target relation =>
    obtain ⟨a, b, i, j, -, -, hi, hj, ⟨rfl, -⟩ | ⟨hfind, rfl⟩⟩ := graph?_edge_eq_some hu
    · exact h
    · exact h.pushEdge (findEdge?_eq_none_iff.1 hfind) (position?_of_position?_eq_some hi)
        (position?_of_position?_eq_some hj)

theorem WellFormed.applyAll? (h : g.WellFormed) (hus : g.applyAll? us = some g') :
    g'.WellFormed := by
  induction us generalizing g with
  | nil => cases hus; exact h
  | cons u us ih =>
    obtain ⟨g₁, hu, hus⟩ := Option.bind_eq_some_iff.1 hus
    exact ih (h.graph? hu) hus

theorem HoldsKeys.graph? (h : g.HoldsKeys) (hu : u.graph? g = some g') : g'.HoldsKeys := by
  cases u with
  | node key given =>
    cases hu
    exact h.mergeNode key given
  | edge start target relation =>
    rw [HoldsKeys, nodes_graph?_edge hu]
    exact h

theorem HoldsKeys.applyAll? (h : g.HoldsKeys) (hus : g.applyAll? us = some g') : g'.HoldsKeys := by
  induction us generalizing g with
  | nil => cases hus; exact h
  | cons u us ih =>
    obtain ⟨g₁, hu, hus⟩ := Option.bind_eq_some_iff.1 hus
    exact ih (h.graph? hu) hus

/-! ## Keys and attributes -/

theorem mem_keys_graph? (h : u.graph? g = some g') :
    key ∈ g'.keys ↔ key ∈ g.keys ∨ ∃ given, u = .node key given := by
  cases u with
  | node k given =>
    cases h
    rw [keys_mergeNode]
    split
    case isTrue hk =>
      refine ⟨.inl, fun h => h.elim id ?_⟩
      rintro ⟨_, heq⟩
      cases heq
      exact hk
    case isFalse =>
      rw [List.mem_append, List.mem_singleton]
      refine or_congr_right ⟨?_, ?_⟩
      · rintro rfl
        exact ⟨given, rfl⟩
      · rintro ⟨_, heq⟩
        cases heq
        rfl
  | edge start target relation =>
    rw [keys, nodes_graph?_edge h]
    refine ⟨.inl, fun h => h.elim id ?_⟩
    rintro ⟨_, heq⟩
    cases heq

/-- The keys afterwards are the old ones and those of the upserts. -/
theorem mem_keys_applyAll? (h : g.applyAll? us = some g') :
    key ∈ g'.keys ↔ key ∈ g.keys ∨ ∃ given, .node key given ∈ us := by
  induction us generalizing g with
  | nil => cases h; simp
  | cons u us ih =>
    obtain ⟨g₁, hu, hus⟩ := Option.bind_eq_some_iff.1 h
    rw [ih hus, mem_keys_graph? hu, or_assoc]
    refine or_congr_right ⟨?_, ?_⟩
    · rintro (⟨given, rfl⟩ | ⟨given, hmem⟩)
      · exact ⟨given, List.mem_cons_self⟩
      · exact ⟨given, List.mem_cons_of_mem _ hmem⟩
    · rintro ⟨given, hmem⟩
      rcases List.mem_cons.1 hmem with rfl | hmem
      · exact .inl ⟨given, rfl⟩
      · exact .inr ⟨given, hmem⟩

theorem attribute?_graph? {name : String} (hname : name ≠ key.label.keyAttribute)
    (h : u.graph? g = some g') :
    g'.attribute? key name = (u.given? key name).or (g.attribute? key name) := by
  cases u with
  | node k given =>
    cases h
    by_cases hk : k = key
    · subst hk
      rw [attribute?_mergeNode hname, Upsert.given?, if_pos rfl]
    · rw [attribute?_mergeNode_of_ne hk, Upsert.given?, if_neg hk]
      rfl
  | edge start target relation => rw [attribute?_congr (nodes_graph?_edge h)]; rfl

/-- **The last value given stays**; what is not given stays as it was. -/
theorem attribute?_applyAll? {name : String} (hname : name ≠ key.label.keyAttribute)
    (h : g.applyAll? us = some g') :
    g'.attribute? key name = (lastGiven? us key name).or (g.attribute? key name) := by
  induction us generalizing g with
  | nil => cases h; rfl
  | cons u us ih =>
    obtain ⟨g₁, hu, hus⟩ := Option.bind_eq_some_iff.1 h
    rw [ih hus, attribute?_graph? hname hu, lastGiven?, Option.or_assoc]

theorem mem_links_graph? (hg : g.WellFormed) (h : u.graph? g = some g')
    (haddr : g.nodes.size < 0xffffffff) {l : Link} :
    some l ∈ g'.links ↔ some l ∈ g.links ∨ u = .edge l.start l.target l.relation := by
  cases u with
  | node k given =>
    cases h
    have hends : (g.mergeNode k given).1.ends = g.ends := by rw [ends, edges_mergeNode]; rfl
    rw [links, hends, hg.links_of_prefix (extends_mergeNode g k given).keys]
    simp
  | edge start target relation =>
    obtain ⟨a, b, i, j, ha, hb, hi, hj, hcase⟩ := graph?_edge_eq_some h
    -- the ends are where look-ups find them
    have hplace {k : NodeKey} {a i : NodeId} (ha : g.find? k = some a)
        (hi : g.position? a = some i) :
        g.keys[i]? = some k := by
      have hlt := Nat.lt_trans (find?_lt ha) haddr
      have hslot := (position?_eq_some.1 hi).1
      rw [slot?_of_lt hlt] at hslot
      cases hslot
      exact hg.find?_eq_some_iff.1 ha
    have hlink : g.link? (i, j, relation) = some ⟨start, target, relation⟩ :=
      link?_eq_some_iff.2 ⟨hplace ha hi, hplace hb hj, rfl⟩
    have heq : Upsert.edge start target relation = .edge l.start l.target l.relation ↔
        some l = some ⟨start, target, relation⟩ := by
      obtain ⟨s, t, r⟩ := l
      simp [eq_comm]
    rw [heq]
    rcases hcase with ⟨rfl, hmem⟩ | ⟨-, rfl⟩
    · refine ⟨.inl, fun h => h.elim id fun hl => ?_⟩
      rw [hl, ← hlink]
      exact List.mem_map_of_mem hmem
    · rw [links, ends_push, List.map_append, List.mem_append]
      refine or_congr_right ?_
      rw [List.map_singleton, List.mem_singleton]
      exact Eq.congr_right hlink

/-- The relationships afterwards are the old ones and those of the upserts. -/
theorem mem_links_applyAll? (hg : g.WellFormed) (h : g.applyAll? us = some g')
    (haddr : g'.nodes.size < 0xffffffff) {l : Link} :
    some l ∈ g'.links ↔ some l ∈ g.links ∨ .edge l.start l.target l.relation ∈ us := by
  induction us generalizing g with
  | nil => cases h; simp
  | cons u us ih =>
    obtain ⟨g₁, hu, hus⟩ := Option.bind_eq_some_iff.1 h
    have hsize : g.nodes.size < 0xffffffff := Nat.lt_of_le_of_lt (extends_applyAll? h).size_le haddr
    rw [ih (hg.graph? hu) hus, mem_links_graph? hg hu hsize, or_assoc, List.mem_cons, eq_comm]

/-! ## From the empty graph -/

theorem mem_keys_of_applyAll?_empty (h : empty.applyAll? us = some g) :
    key ∈ g.keys ↔ ∃ given, .node key given ∈ us := by
  rw [mem_keys_applyAll? h]
  exact or_iff_right fun hkey => by cases hkey

theorem attribute?_of_applyAll?_empty {name : String} (hname : name ≠ key.label.keyAttribute)
    (h : empty.applyAll? us = some g) : g.attribute? key name = lastGiven? us key name := by
  rw [attribute?_applyAll? hname h, attribute?_of_notMem (fun hkey => by cases hkey),
    Option.or_none]

theorem mem_links_of_applyAll?_empty (h : empty.applyAll? us = some g)
    (haddr : g.nodes.size < 0xffffffff) {l : Link} :
    some l ∈ g.links ↔ .edge l.start l.target l.relation ∈ us := by
  rw [mem_links_applyAll? wellFormed_empty h haddr]
  exact or_iff_right fun hl => by cases hl

/-- Upserts of the same keys that leave the same values make the same nodes of the empty graph. -/
theorem mem_nodes_iff_of_applyAll?_empty {us' : List Upsert} (h : empty.applyAll? us = some g)
    (h' : empty.applyAll? us' = some g')
    (hkeys : ∀ key, (∃ given, .node key given ∈ us) ↔ ∃ given, .node key given ∈ us')
    (hgiven : ∀ key name, name ≠ key.label.keyAttribute →
      lastGiven? us key name = lastGiven? us' key name)
    (n : Node) :
    n ∈ g.nodes ↔ n ∈ g'.nodes := by
  have hkey : n.nodeKey ∈ g.keys ↔ n.nodeKey ∈ g'.keys := by
    rw [mem_keys_of_applyAll?_empty h, mem_keys_of_applyAll?_empty h', hkeys]
  rw [(wellFormed_empty.applyAll? h).mem_nodes_iff,
    (wellFormed_empty.applyAll? h').mem_nodes_iff, hkey]
  refine and_congr_right fun hmem' => forall_congr' fun name => ?_
  have hmem := hkey.2 hmem'
  suffices g.attribute? n.nodeKey name = g'.attribute? n.nodeKey name by rw [this]
  by_cases hname : name = n.nodeKey.label.keyAttribute
  · rw [hname, (holdsKeys_empty.applyAll? h).attribute?_keyAttribute hmem,
      (holdsKeys_empty.applyAll? h').attribute?_keyAttribute hmem']
  · rw [attribute?_of_applyAll?_empty hname h, attribute?_of_applyAll?_empty hname h',
      hgiven _ _ hname]

/-! ## Repetition -/

/-- The graph has the node, or the relationship where look-ups place it. -/
def Settles (g : Graph) : Upsert → Prop
  | .node key _ => key ∈ g.keys
  | .edge start target relation => ∃ a b i j, g.find? start = some a ∧ g.find? target = some b ∧
      g.position? a = some i ∧ g.position? b = some j ∧ (i, j, relation) ∈ g.ends

theorem Settles.of_extends (hu : g.Settles u) (h : Extends g g') : g'.Settles u := by
  cases u with
  | node key given => exact h.mem_keys hu
  | edge start target relation =>
    obtain ⟨a, b, i, j, ha, hb, hi, hj, hmem⟩ := hu
    exact ⟨a, b, i, j, h.find?_eq_some ha, h.find?_eq_some hb, h.position?_eq_some hi,
      h.position?_eq_some hj, h.ends.subset hmem⟩

/-- An upsert of what is there succeeds and adds nothing. -/
theorem Settles.graph? (hu : g.Settles u) :
    ∃ g', u.graph? g = some g' ∧ g'.keys = g.keys ∧ g'.edges = g.edges := by
  cases u with
  | node key given =>
    refine ⟨_, rfl, ?_, edges_mergeNode g key given⟩
    exact (keys_mergeNode g key given).trans (if_pos hu)
  | edge start target relation =>
    obtain ⟨a, b, i, j, ha, hb, hi, hj, hmem⟩ := hu
    refine ⟨g, ?_, rfl, rfl⟩
    obtain ⟨id, hid⟩ := Option.ne_none_iff_exists'.1 fun hnone =>
      findEdge?_eq_none_iff.1 hnone hmem
    simp only [Upsert.graph?, ha, hb, Option.bind_some, mergeEdge_of_findEdge?_eq_some hi hj hid,
      Option.map_some]

end Graph

end CodeGraph
