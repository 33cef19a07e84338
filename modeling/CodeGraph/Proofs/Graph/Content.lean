import CodeGraph.Proofs.Graph.WellFormed
import Mathlib.Data.List.Nodup

/-!
# What a graph holds, by natural keys

Ids aside, a graph is the list of the natural keys of its nodes, an attribute map for each of them
and the list of the identities of its relationships: `Graph.keys`, `Graph.attribute?` and
`Graph.ends`. A node look-up depends on the keys alone (`find?_eq_findIdx?`).

* `keys_mergeNode`, `attribute?_mergeNode`: what a merged node adds to keys and attributes.
* `Extends`: keys and relationships are only ever added at the end, so ids and look-ups stay
  (`Extends.find?_eq_some`).
-/

namespace CodeGraph

namespace Graph

/-- The natural keys of the nodes, in creation order. -/
def keys (g : Graph) : List NodeKey := g.nodes.toList.map Node.nodeKey

/-- The identities of the relationships, in creation order. -/
def ends (g : Graph) : List (NodeId × NodeId × Relation) := g.edges.toList.map Edge.ends

/-- An attribute of the node with a natural key. -/
def attribute? (g : Graph) (key : NodeKey) (name : String) : Option Value :=
  (g.find? key).bind fun i => g.nodes[i]?.bind fun n => n.attributes.get? name

end Graph

/-- A relationship by the natural keys of its ends. -/
structure Link where
  start : NodeKey
  target : NodeKey
  relation : Relation
deriving DecidableEq

namespace Graph

/-- The relationship between the nodes at two places, by their keys. -/
def link? (g : Graph) (ends : NodeId × NodeId × Relation) : Option Link := do
  return ⟨← g.keys[ends.1]?, ← g.keys[ends.2.1]?, ends.2.2⟩

/-- The relationships by the keys of their ends, in creation order. -/
def links (g : Graph) : List (Option Link) := g.ends.map g.link?

variable {g g' g'' : Graph} {key : NodeKey} {id i : NodeId}

theorem length_keys (g : Graph) : g.keys.length = g.nodes.size := by simp [keys]

theorem length_ends (g : Graph) : g.ends.length = g.edges.size := by simp [ends]

theorem length_links (g : Graph) : g.links.length = g.edges.size := by
  rw [links, List.length_map, length_ends]

theorem getElem?_keys (g : Graph) (i : Nat) : g.keys[i]? = g.nodes[i]?.map Node.nodeKey := by
  rw [keys, List.getElem?_map, Array.getElem?_toList]

/-! ## Look-ups by keys -/

theorem find?_eq_findIdx? (g : Graph) (key : NodeKey) :
    g.find? key = g.keys.findIdx? (· == key) := by
  obtain ⟨⟨nodes⟩, edges⟩ := g
  obtain ⟨label, text⟩ := key
  rw [find?, keys, List.findIdx?_map, List.findIdx?_toArray]
  refine congrArg (fun p => List.findIdx? p nodes) (funext fun n => ?_)
  rw [Bool.eq_iff_iff]
  simp [Node.nodeKey]

theorem findEdge?_eq_findIdx? (g : Graph) (start target : NodeId) (relation : Relation) :
    g.findEdge? start target relation = g.ends.findIdx? (· == (start, target, relation)) := by
  obtain ⟨nodes, ⟨edges⟩⟩ := g
  rw [findEdge?, ends, List.findIdx?_map, List.findIdx?_toArray]
  refine congrArg (fun p => List.findIdx? p edges) (funext fun e => ?_)
  rw [Bool.eq_iff_iff]
  simp [Edge.ends, and_assoc]

theorem isSome_find?_iff : (g.find? key).isSome ↔ key ∈ g.keys := by
  rw [Option.isSome_iff_ne_none, Ne, find?_eq_none_iff, Decidable.not_not, keys]

theorem find?_lt (h : g.find? key = some id) : id < g.nodes.size := by
  obtain ⟨n, hn, -⟩ := find?_eq_some h
  exact (Array.getElem?_eq_some_iff.1 hn).1

theorem find?_congr (h : g.keys = g'.keys) (key : NodeKey) : g.find? key = g'.find? key := by
  rw [find?_eq_findIdx?, find?_eq_findIdx?, h]

theorem findIdx?_append_of_eq_some {α : Type} {p : α → Bool} {l l' : List α} {i : Nat}
    (h : l.findIdx? p = some i) : (l ++ l').findIdx? p = some i := by
  rw [List.findIdx?_append, h]
  rfl

theorem findIdx?_concat_self {α : Type} [BEq α] [LawfulBEq α] {l : List α} {a : α} (h : a ∉ l) :
    (l ++ [a]).findIdx? (· == a) = some l.length := by
  have hnone : l.findIdx? (· == a) = none :=
    List.findIdx?_eq_none_iff.2 fun b hb => by
      have hne : b ≠ a := fun he => h (he ▸ hb)
      simpa using hne
  rw [List.findIdx?_append, hnone]
  simp

/-- Without repetitions a search finds an item exactly where it stands. -/
theorem findIdx?_eq_some_iff_of_nodup {α : Type} [BEq α] [LawfulBEq α] {l : List α}
    (h : l.Nodup) {a : α} {i : Nat} : l.findIdx? (· == a) = some i ↔ l[i]? = some a := by
  constructor
  · intro hi
    obtain ⟨hlt, hl, -⟩ := List.findIdx?_eq_some_iff_getElem.1 hi
    rw [List.getElem?_eq_getElem hlt, eq_of_beq hl]
  · intro hi
    obtain ⟨hlt, rfl⟩ := List.getElem?_eq_some_iff.1 hi
    refine List.findIdx?_eq_some_iff_getElem.2 ⟨hlt, by simp, fun j hj => ?_⟩
    have hne : l[j] ≠ l[i] := fun he => Nat.ne_of_lt hj ((List.getElem_inj h).1 he)
    simpa using hne

/-! ## Merged nodes -/

theorem keys_modify (g : Graph) (i : Nat) (f : Attributes → Attributes) :
    keys { g with nodes := g.nodes.modify i fun n => { n with attributes := f n.attributes } } =
      g.keys := by
  have hkey : ∀ n : Node, Node.nodeKey { n with attributes := f n.attributes } = n.nodeKey :=
    fun _ => rfl
  rw [keys, Array.toList_modify, map_modify_of_forall_eq hkey]
  rfl

theorem ends_modify (g : Graph) (i : Nat) (f : Attributes → Attributes) :
    ends { g with edges := g.edges.modify i fun e => { e with attributes := f e.attributes } } =
      g.ends := by
  have hends : ∀ e : Edge, Edge.ends { e with attributes := f e.attributes } = e.ends :=
    fun _ => rfl
  rw [ends, Array.toList_modify, map_modify_of_forall_eq hends]
  rfl

theorem keys_push (g : Graph) (n : Node) :
    keys { g with nodes := g.nodes.push n } = g.keys ++ [n.nodeKey] := by
  simp [keys]

/-- A merge adds the key of its node unless there is one. -/
theorem keys_mergeNode (g : Graph) (key : NodeKey) (given : Attributes) :
    (g.mergeNode key given).1.keys = if key ∈ g.keys then g.keys else g.keys ++ [key] := by
  cases hfind : g.find? key with
  | none =>
    have hkey : key ∉ g.keys := find?_eq_none_iff.1 hfind
    rw [mergeNode_of_find?_eq_none hfind, keys_push, if_neg hkey]
    rfl
  | some id =>
    have hkey : key ∈ g.keys := isSome_find?_iff.1 (by rw [hfind]; rfl)
    rw [mergeNode_of_find?_eq_some hfind, keys_modify, if_pos hkey]

theorem attribute?_of_find? (h : g.find? key = some i) {n : Node} (hn : g.nodes[i]? = some n)
    (name : String) : g.attribute? key name = n.attributes.get? name := by
  rw [attribute?, h, Option.bind_some, hn, Option.bind_some]

theorem attribute?_of_notMem (h : key ∉ g.keys) (name : String) : g.attribute? key name = none := by
  rw [attribute?, find?_eq_none_iff.2 h]
  rfl

theorem attribute?_congr {g g' : Graph} (h : g.nodes = g'.nodes) :
    g.attribute? = g'.attribute? := by
  funext key name
  rw [attribute?, attribute?, find?, find?, h]

/-- The attributes of another node stay what they are. -/
theorem attribute?_modify_of_ne {f : Attributes → Attributes} (h : g.find? key ≠ some i)
    (name : String) :
    attribute? { g with nodes := g.nodes.modify i fun n => { n with attributes := f n.attributes } }
      key name = g.attribute? key name := by
  rw [attribute?, attribute?, find?_congr (keys_modify g i f)]
  cases hfind : g.find? key with
  | none => rfl
  | some j =>
    have hne : i ≠ j := fun he => h (he ▸ hfind)
    rw [Option.bind_some, Option.bind_some, Array.getElem?_modify, if_neg hne]

theorem attribute?_modify {f : Attributes → Attributes} {n : Node} (h : g.find? key = some i)
    (hn : g.nodes[i]? = some n) (name : String) :
    attribute? { g with nodes := g.nodes.modify i fun n => { n with attributes := f n.attributes } }
      key name = (f n.attributes).get? name := by
  refine attribute?_of_find? ((find?_congr (keys_modify g i f) key).trans h)
    (n := { n with attributes := f n.attributes }) ?_ name
  rw [Array.getElem?_modify, if_pos rfl, hn]
  rfl

theorem attribute?_push_of_ne {n : Node} (h : n.nodeKey ≠ key) (name : String) :
    attribute? { g with nodes := g.nodes.push n } key name = g.attribute? key name := by
  by_cases hkey : key ∈ g.keys
  · obtain ⟨i, hi⟩ := Option.isSome_iff_exists.1 (isSome_find?_iff.2 hkey)
    have hpush : find? { g with nodes := g.nodes.push n } key = some i := by
      rw [find?_eq_findIdx?, keys_push]
      exact findIdx?_append_of_eq_some ((find?_eq_findIdx? g key).symm.trans hi)
    have hne : i ≠ g.nodes.size := Nat.ne_of_lt (find?_lt hi)
    rw [attribute?, attribute?, hpush, hi, Option.bind_some, Option.bind_some, Array.getElem?_push,
      if_neg hne]
  · rw [attribute?_of_notMem hkey, attribute?_of_notMem]
    rw [keys_push, List.mem_append, List.mem_singleton]
    exact fun hmem => hmem.elim hkey fun he => h he.symm

theorem attribute?_push_self {n : Node} (h : n.nodeKey ∉ g.keys) (name : String) :
    attribute? { g with nodes := g.nodes.push n } n.nodeKey name = n.attributes.get? name := by
  have hfind : find? { g with nodes := g.nodes.push n } n.nodeKey = some g.nodes.size := by
    rw [find?_eq_findIdx?, keys_push, findIdx?_concat_self h, length_keys]
  exact attribute?_of_find? hfind (by simp) name

/-- A merge leaves the attributes of other nodes alone. -/
theorem attribute?_mergeNode_of_ne {other : NodeKey} (h : key ≠ other) (given : Attributes)
    (name : String) : (g.mergeNode key given).1.attribute? other name =
      g.attribute? other name := by
  cases hfind : g.find? key with
  | none =>
    rw [mergeNode_of_find?_eq_none hfind]
    exact attribute?_push_of_ne (n := newNode key given) h name
  | some id =>
    rw [mergeNode_of_find?_eq_some hfind]
    refine attribute?_modify_of_ne (fun hother => h ?_) name
    obtain ⟨n, hn, rfl⟩ := find?_eq_some hfind
    obtain ⟨m, hm, rfl⟩ := find?_eq_some hother
    cases hn.symm.trans hm
    rfl

/-- **A merge overwrites exactly the given attributes other than the key attribute.** -/
theorem attribute?_mergeNode {name : String} (h : name ≠ key.label.keyAttribute)
    (given : Attributes) :
    (g.mergeNode key given).1.attribute? key name =
      (given.get? name).or (g.attribute? key name) := by
  cases hfind : g.find? key with
  | none =>
    have hkey : key ∉ g.keys := find?_eq_none_iff.1 hfind
    rw [mergeNode_of_find?_eq_none hfind, attribute?_of_notMem hkey]
    refine (attribute?_push_self (n := newNode key given) hkey name).trans ?_
    refine (get?_overwrite h given _).trans (congrArg _ ?_)
    exact Dict.get?_insert_of_ne (Ne.symm h) _ _
  | some id =>
    obtain ⟨n, hn, rfl⟩ := find?_eq_some hfind
    rw [mergeNode_of_find?_eq_some hfind]
    rw [attribute?_modify hfind hn, attribute?_of_find? hfind hn]
    exact get?_overwrite h given _

/-- The key attribute is written once, by the merge that makes the node. -/
theorem attribute?_mergeNode_keyAttribute (g : Graph) (key : NodeKey) (given : Attributes) :
    (g.mergeNode key given).1.attribute? key key.label.keyAttribute =
      if key ∈ g.keys then g.attribute? key key.label.keyAttribute else some (.text key.key) := by
  cases hfind : g.find? key with
  | none =>
    have hkey : key ∉ g.keys := find?_eq_none_iff.1 hfind
    rw [mergeNode_of_find?_eq_none hfind, if_neg hkey]
    exact (attribute?_push_self (n := newNode key given) hkey _).trans (holdsKey_newNode key given)
  | some id =>
    obtain ⟨n, hn, rfl⟩ := find?_eq_some hfind
    rw [mergeNode_of_find?_eq_some hfind, if_pos (isSome_find?_iff.1 (by rw [hfind]; rfl))]
    rw [attribute?_modify hfind hn, attribute?_of_find? hfind hn]
    exact get?_overwrite_keyAttribute _ given _

/-! ## Merged relationships -/

section

variable {start target a b : NodeId} {relation : Relation}

theorem mergeEdge_of_findEdge?_eq_some (ha : g.position? start = some a)
    (hb : g.position? target = some b) (hfind : g.findEdge? a b relation = some id) :
    g.mergeEdge start target relation = some (g, id, false) := by
  simp [mergeEdge, ha, hb, hfind]

theorem mergeEdge_of_findEdge?_eq_none (ha : g.position? start = some a)
    (hb : g.position? target = some b) (hfind : g.findEdge? a b relation = none) :
    g.mergeEdge start target relation =
      some ({ g with edges := g.edges.push ⟨a, b, relation, Dict.empty⟩ }, g.edges.size, true) := by
  simp [mergeEdge, ha, hb, hfind]

theorem mergeEdge_eq_none_iff :
    g.mergeEdge start target relation = none ↔
    g.position? start = none ∨ g.position? target = none := by
  cases ha : g.position? start with
  | none => simp [mergeEdge, ha]
  | some a =>
    cases hb : g.position? target with
    | none => simp [mergeEdge, ha, hb]
    | some b =>
      cases hfind : g.findEdge? a b relation with
      | none => simp [mergeEdge_of_findEdge?_eq_none ha hb hfind]
      | some id => simp [mergeEdge_of_findEdge?_eq_some ha hb hfind]

end

theorem ends_push (g : Graph) (e : Edge) :
    ends { g with edges := g.edges.push e } = g.ends ++ [e.ends] := by
  simp [ends]

/-! ## Growth -/

/-- Nodes and relationships of the first graph stand in the second at the same places. -/
structure Extends (g g' : Graph) : Prop where
  keys : g.keys <+: g'.keys
  ends : g.ends <+: g'.ends

namespace Extends

theorem refl (g : Graph) : Extends g g := ⟨List.prefix_rfl, List.prefix_rfl⟩

theorem trans (h : Extends g g') (h' : Extends g' g'') : Extends g g'' :=
  ⟨h.keys.trans h'.keys, h.ends.trans h'.ends⟩

theorem size_le (h : Extends g g') : g.nodes.size ≤ g'.nodes.size := by
  rw [← length_keys, ← length_keys]
  exact h.keys.length_le

theorem find?_eq_some (h : Extends g g') (hfind : g.find? key = some id) :
    g'.find? key = some id := by
  obtain ⟨rest, hrest⟩ := h.keys
  rw [find?_eq_findIdx?] at hfind ⊢
  rw [← hrest]
  exact findIdx?_append_of_eq_some hfind

theorem mem_keys (h : Extends g g') (hkey : key ∈ g.keys) : key ∈ g'.keys := h.keys.subset hkey

theorem position?_eq_some (h : Extends g g') (hi : g.position? id = some i) :
    g'.position? id = some i :=
  position?_mono h.size_le hi

end Extends

theorem extends_mergeNode (g : Graph) (key : NodeKey) (given : Attributes) :
    Extends g (g.mergeNode key given).1 where
  keys := by
    rw [keys_mergeNode]
    split
    · exact List.prefix_rfl
    · exact List.prefix_append _ _
  ends := by
    have hends : (g.mergeNode key given).1.ends = g.ends := by rw [ends, ends, edges_mergeNode]
    exact hends ▸ List.prefix_rfl

theorem extends_mergeEdge {start target : NodeId} {relation : Relation} {isNew : Bool}
    (h : g.mergeEdge start target relation = some (g', id, isNew)) : Extends g g' := by
  rcases mergeEdge_cases h with rfl | ⟨a, b, -, -, -, -, rfl⟩
  · exact .refl _
  · refine ⟨List.prefix_rfl, ?_⟩
    rw [ends_push]
    exact List.prefix_append _ _

/-! ## Ids -/

/-- A graph has room for `2 ^ 32 - 1` nodes and as many relationships. -/
structure WithinRoom (g : Graph) : Prop where
  nodes : g.nodes.size ≤ 0xffffffff
  edges : g.edges.size ≤ 0xffffffff

instance (g : Graph) : Decidable g.WithinRoom :=
  decidable_of_iff (g.nodes.size ≤ 0xffffffff ∧ g.edges.size ≤ 0xffffffff)
    ⟨fun h => ⟨h.1, h.2⟩, fun h => ⟨h.nodes, h.edges⟩⟩

theorem slot?_of_lt {i : Nat} (h : i < 0xffffffff) : slot? i = some i := by
  have hmod : i % 0x100000000 = i := Nat.mod_eq_of_lt (by omega)
  simp only [slot?, hmod]
  rw [if_neg (by omega)]

/-- Within the room for nodes that a graph has, the number of a node is an id that names it. -/
theorem position?_of_lt (h : g.nodes.size ≤ 0xffffffff) (hi : i < g.nodes.size) :
    g.position? i = some i :=
  position?_eq_some.2 ⟨slot?_of_lt (Nat.lt_of_lt_of_le hi h), hi⟩

theorem WithinRoom.node? (h : g.WithinRoom) (hi : i < g.nodes.size) : g.node? i = g.nodes[i]? := by
  rw [Graph.node?, slot?_of_lt (Nat.lt_of_lt_of_le hi h.nodes)]
  rfl

theorem WithinRoom.edge? (h : g.WithinRoom) (hi : i < g.edges.size) : g.edge? i = g.edges[i]? := by
  rw [Graph.edge?, slot?_of_lt (Nat.lt_of_lt_of_le hi h.edges)]
  rfl

/-- Nodes and relationships are so few that every number of one is the id that names it. -/
structure Addressable (g : Graph) : Prop where
  nodes : g.nodes.size < 0xffffffff
  edges : g.edges.size < 0xffffffff

instance (g : Graph) : Decidable g.Addressable :=
  decidable_of_iff (g.nodes.size < 0xffffffff ∧ g.edges.size < 0xffffffff)
    ⟨fun h => ⟨h.1, h.2⟩, fun h => ⟨h.nodes, h.edges⟩⟩

theorem Addressable.withinRoom (h : g.Addressable) : g.WithinRoom :=
  ⟨Nat.le_of_lt h.nodes, Nat.le_of_lt h.edges⟩

theorem Addressable.node? (h : g.Addressable) (hi : i < g.nodes.size) : g.node? i = g.nodes[i]? :=
  h.withinRoom.node? hi

theorem Addressable.edge? (h : g.Addressable) (hi : i < g.edges.size) : g.edge? i = g.edges[i]? :=
  h.withinRoom.edge? hi

theorem Addressable.position? (h : g.Addressable) (hi : i < g.nodes.size) :
    g.position? i = some i :=
  position?_of_lt h.withinRoom.nodes hi

/-! ## Well-formed graphs -/

/-- A key is found exactly where it stands. -/
theorem WellFormed.find?_eq_some_iff (h : g.WellFormed) :
    g.find? key = some i ↔ g.keys[i]? = some key := by
  rw [find?_eq_findIdx?]
  exact findIdx?_eq_some_iff_of_nodup h.nodes_unique

/-- A graph has the nodes whose keys it has, with the attributes that look-ups find. -/
theorem WellFormed.mem_nodes_iff (h : g.WellFormed) {n : Node} :
    n ∈ g.nodes ↔ n.nodeKey ∈ g.keys ∧
      ∀ name, g.attribute? n.nodeKey name = n.attributes.get? name := by
  constructor
  · intro hn
    obtain ⟨i, hi⟩ := Array.getElem?_of_mem hn
    have hkey : g.keys[i]? = some n.nodeKey := by rw [getElem?_keys, hi, Option.map_some]
    exact ⟨List.mem_of_getElem? hkey, attribute?_of_find? (h.find?_eq_some_iff.2 hkey) hi⟩
  · rintro ⟨hkey, hn⟩
    obtain ⟨i, hi⟩ := Option.isSome_iff_exists.1 (isSome_find?_iff.2 hkey)
    obtain ⟨m, hm, hmn⟩ := find?_eq_some hi
    have hattributes : m.attributes = n.attributes :=
      Dict.ext_get? fun name => (attribute?_of_find? hi hm name).symm.trans (hn name)
    obtain ⟨label, key, attributes⟩ := m
    cases n
    cases hattributes
    cases hmn
    exact Array.mem_of_getElem? hm

/-- The attributes that look-ups find are determined by which nodes there are. -/
theorem WellFormed.attribute?_congr (h : g.WellFormed) (h' : g'.WellFormed)
    (hnodes : ∀ n, n ∈ g.nodes ↔ n ∈ g'.nodes) (key : NodeKey) (name : String) :
    g.attribute? key name = g'.attribute? key name := by
  have hkey {g : Graph} (hkey : key ∈ g.keys) : ∃ n ∈ g.nodes, n.nodeKey = key := by
    obtain ⟨n, hn, rfl⟩ := List.mem_map.1 hkey
    exact ⟨n, Array.mem_toList_iff.1 hn, rfl⟩
  by_cases hmem : key ∈ g.keys
  · obtain ⟨n, hn, rfl⟩ := hkey hmem
    rw [(h.mem_nodes_iff.1 hn).2, (h'.mem_nodes_iff.1 ((hnodes n).1 hn)).2]
  · have hmem' : key ∉ g'.keys := fun hmem' => by
      obtain ⟨n, hn, rfl⟩ := hkey hmem'
      exact hmem (h.mem_nodes_iff.1 ((hnodes n).2 hn)).1
    rw [attribute?_of_notMem hmem, attribute?_of_notMem hmem']

theorem HoldsKeys.attribute?_keyAttribute (h : g.HoldsKeys) (hkey : key ∈ g.keys) :
    g.attribute? key key.label.keyAttribute = some (.text key.key) := by
  obtain ⟨i, hi⟩ := Option.isSome_iff_exists.1 (isSome_find?_iff.2 hkey)
  obtain ⟨n, hn, rfl⟩ := find?_eq_some hi
  rw [attribute?_of_find? hi hn]
  exact h n (List.mem_of_getElem? (Array.getElem?_toList.trans hn))

theorem WellFormed.lt_of_mem_ends (h : g.WellFormed) {x : NodeId × NodeId × Relation}
    (hx : x ∈ g.ends) :
    x.1 < g.keys.length ∧ x.2.1 < g.keys.length := by
  obtain ⟨e, he, rfl⟩ := List.mem_map.1 hx
  obtain ⟨hstart, htarget⟩ := h.endpoints e he
  rw [length_keys]
  exact ⟨(position?_eq_some.1 hstart).2, (position?_eq_some.1 htarget).2⟩

theorem link?_eq_some_iff {x : NodeId × NodeId × Relation} {l : Link} :
    g.link? x = some l ↔
      g.keys[x.1]? = some l.start ∧ g.keys[x.2.1]? = some l.target ∧ x.2.2 = l.relation := by
  obtain ⟨start, target, relation⟩ := l
  simp only [link?, Option.bind_eq_bind, Option.bind_eq_some_iff, Option.pure_def,
    Option.some.injEq, Link.mk.injEq]
  constructor
  · rintro ⟨a, ha, b, hb, rfl, rfl, rfl⟩
    exact ⟨ha, hb, rfl⟩
  · rintro ⟨ha, hb, rfl⟩
    exact ⟨start, ha, target, hb, rfl, rfl, rfl⟩

/-- New nodes do not change what the old relationships are. -/
theorem WellFormed.links_of_prefix (h : g.WellFormed) (hkeys : g.keys <+: g'.keys) :
    g.ends.map g'.link? = g.links := by
  refine List.map_congr_left fun x hx => ?_
  obtain ⟨rest, hrest⟩ := hkeys
  obtain ⟨hstart, htarget⟩ := h.lt_of_mem_ends hx
  rw [link?, link?, ← hrest, List.getElem?_append_left hstart, List.getElem?_append_left htarget]

/-- Relationships that are the same by the keys of their ends are the same. -/
theorem WellFormed.link?_inj (h : g.WellFormed) {x y : NodeId × NodeId × Relation} {l : Link}
    (hx : g.link? x = some l) (hy : g.link? y = some l) : x = y := by
  obtain ⟨hstart, htarget, hrelation⟩ := link?_eq_some_iff.1 hx
  obtain ⟨hstart', htarget', hrelation'⟩ := link?_eq_some_iff.1 hy
  have hinj {i j : Nat} {k : NodeKey} (hi : g.keys[i]? = some k) (hj : g.keys[j]? = some k) :
      i = j :=
    (List.getElem?_inj (List.getElem?_eq_some_iff.1 hi).1 h.nodes_unique).1 (hi.trans hj.symm)
  exact Prod.ext (hinj hstart hstart')
    (Prod.ext (hinj htarget htarget') (hrelation.trans hrelation'.symm))

/-- A search by ends is a search by the keys of the ends. -/
theorem WellFormed.findEdge?_eq_findIdx?_links (h : g.WellFormed) {x : NodeId × NodeId × Relation}
    {l : Link} (hx : g.link? x = some l) :
    g.findEdge? x.1 x.2.1 x.2.2 = g.links.findIdx? (· == some l) := by
  rw [findEdge?_eq_findIdx?, links, List.findIdx?_map]
  refine congrArg (fun p => List.findIdx? p g.ends) (funext fun y => ?_)
  rw [Bool.eq_iff_iff, Function.comp_apply, beq_iff_eq, beq_iff_eq]
  exact ⟨fun hy => hy ▸ hx, fun hy => h.link?_inj hy hx⟩

theorem WellFormed.isSome_link? (h : g.WellFormed) {x : NodeId × NodeId × Relation}
    (hx : x ∈ g.ends) :
    ∃ l, g.link? x = some l := by
  obtain ⟨hstart, htarget⟩ := h.lt_of_mem_ends hx
  exact ⟨⟨_, _, x.2.2⟩, link?_eq_some_iff.2
    ⟨List.getElem?_eq_getElem hstart, List.getElem?_eq_getElem htarget, rfl⟩⟩

theorem WellFormed.links_unique (h : g.WellFormed) : g.links.Nodup := by
  refine List.Nodup.map_on (fun x hx y _ hxy => ?_) h.edges_unique
  obtain ⟨l, hl⟩ := h.isSome_link? hx
  exact h.link?_inj hl (hxy ▸ hl)

/-- No relationship is listed twice. -/
theorem WellFormed.nodup_filterMap_links (h : g.WellFormed) :
    (g.links.filterMap fun l => l).Nodup := by
  refine h.links_unique.filterMap fun x y l hx hy => ?_
  exact (Option.mem_def.1 hx).trans (Option.mem_def.1 hy).symm

end Graph

end CodeGraph
