import CodeGraph.Proofs.Graph.Operations
import Mathlib.Logic.Function.Basic

/-!
# Graphs as keyed maps

A `KeyedModel` knows nothing of storage: it is a list of natural keys, an attribute map for each of
them, and a list of relationships by the keys of their ends. The operations on it read as their
descriptions do. A graph *represents* a model if keys, attribute maps and relationships are the same
(`Graph.Represents`), and every operation keeps this and gives the same answer
(`Represents.perform`).

* `faithful_run`: what a whole run of operations on the empty graph makes and answers.
-/

namespace CodeGraph

/-- Attribute maps by natural keys and relationships by the keys of their ends, both
in creation order. -/
structure KeyedModel where
  keys : List NodeKey
  attributes : NodeKey → String → Option Value
  links : List Link
  linkAttributes : Link → String → Option Value

namespace KeyedModel

open Function (update)

/-- The model without keys and relationships. -/
def empty : KeyedModel := ⟨[], fun _ _ => none, [], fun _ _ => none⟩

/-- The attributes of a new node: its key attribute alone. -/
def freshAttributes (key : NodeKey) (name : String) : Option Value :=
  if name = key.label.keyAttribute then some (.text key.key) else none

/-- The given attributes in place of the old ones, except that the key attribute stays. -/
def overwritten (label : Label) (given : Attributes) (old : String → Option Value) (name : String) :
    Option Value :=
  if name = label.keyAttribute then old name else (given.get? name).or (old name)

/-- The key that an id names. -/
def key? (m : KeyedModel) (id : NodeId) : Option NodeKey :=
  (Graph.slot? id).bind fun i => m.keys[i]?

/-- The relationship that an id names. -/
def link? (m : KeyedModel) (id : EdgeId) : Option Link := (Graph.slot? id).bind fun i => m.links[i]?

/-- Perform an operation. -/
def perform (m : KeyedModel) : Operation → Answer × KeyedModel
  | .mergeNode key given =>
    let written (old : String → Option Value) :=
      update m.attributes key (overwritten key.label given old)
    match m.keys.findIdx? (· == key) with
    | some id => (.merged id false, { m with attributes := written (m.attributes key) })
    | none => (.merged m.keys.length true,
        { m with keys := m.keys ++ [key], attributes := written (freshAttributes key) })
  | .mergeEdge start target relation =>
    match m.key? start, m.key? target with
    | some a, some b =>
      match m.links.findIdx? (· == Link.mk a b relation) with
      | some id => (.merged id false, m)
      | none => (.merged m.links.length true,
          { m with
            links := m.links ++ [⟨a, b, relation⟩]
            linkAttributes := update m.linkAttributes ⟨a, b, relation⟩ fun _ => none })
    | _, _ => (.missing, m)
  | .writeNode id name value =>
    match m.key? id with
    | some key => (.done,
        { m with
          attributes :=
            update m.attributes key (update (m.attributes key) name (some value)) })
    | none => (.missing, m)
  | .writeEdge id name value =>
    match m.link? id with
    | some l => (.done,
        { m with
          linkAttributes :=
            update m.linkAttributes l (update (m.linkAttributes l) name (some value)) })
    | none => (.missing, m)
  | .clear => (.done, empty)

/-- Perform operations in order. -/
def run : List Operation → KeyedModel → List Answer × KeyedModel
  | [], m => ([], m)
  | op :: ops, m =>
    let (answer, m') := m.perform op
    let (answers, m'') := run ops m'
    (answer :: answers, m'')

end KeyedModel

namespace Graph

/-- An attribute of the relationship between nodes with natural keys. -/
def linkAttribute? (g : Graph) (l : Link) (name : String) : Option Value :=
  (g.links.findIdx? (· == some l)).bind fun i => g.edges[i]?.bind fun e => e.attributes.get? name

/-- A graph without duplicates or loose ends that has the keys, attribute maps and
relationships of a model. -/
structure Represents (g : Graph) (m : KeyedModel) : Prop where
  wellFormed : g.WellFormed
  keys : g.keys = m.keys
  attributes : ∀ key name, g.attribute? key name = m.attributes key name
  links : g.links = m.links.map some
  linkAttributes : ∀ l name, g.linkAttribute? l name = m.linkAttributes l name

variable {g g' : Graph} {m m' : KeyedModel}

theorem represents_empty : empty.Represents .empty :=
  ⟨wellFormed_empty, rfl, fun key name => attribute?_of_notMem (by simp [Graph.keys, empty]) name,
    rfl,
    fun _ _ => rfl⟩

namespace Represents

/-! ## Ids and keys -/

theorem key?_eq_some_iff (h : g.Represents m) {id : NodeId} {key : NodeKey} :
    m.key? id = some key ↔ ∃ i, g.position? id = some i ∧ g.keys[i]? = some key := by
  simp only [KeyedModel.key?, ← h.keys, Option.bind_eq_some_iff, position?_eq_some]
  refine exists_congr fun i =>
    ⟨fun ⟨hslot, hi⟩ => ⟨⟨hslot, ?_⟩, hi⟩, fun ⟨⟨hslot, _⟩, hi⟩ => ⟨hslot, hi⟩⟩
  rw [← length_keys]
  exact (List.getElem?_eq_some_iff.1 hi).1

theorem key?_eq_none_iff (h : g.Represents m) {id : NodeId} :
    m.key? id = none ↔ g.position? id = none := by
  simp only [Option.eq_none_iff_forall_ne_some, ne_eq, h.key?_eq_some_iff, not_exists, not_and]
  constructor
  · intro hkey i hi
    have hlt : i < g.keys.length := by rw [length_keys]; exact (position?_eq_some.1 hi).2
    exact hkey g.keys[i] i hi (List.getElem?_eq_getElem hlt)
  · exact fun hpos key i hi => absurd hi (hpos i)

theorem link?_eq_some_iff (h : g.Represents m) {id : EdgeId} {l : Link} :
    m.link? id = some l ↔
      ∃ i, (slot? id).filter (· < g.edges.size) = some i ∧ g.links[i]? = some (some l) := by
  have hplace (i : Nat) : g.links[i]? = some (some l) ↔ m.links[i]? = some l := by
    rw [h.links, List.getElem?_map]
    cases m.links[i]? <;> simp
  simp only [KeyedModel.link?, hplace, Option.bind_eq_some_iff, Option.filter_eq_some_iff]
  refine exists_congr fun i =>
    ⟨fun ⟨hslot, hi⟩ => ⟨⟨hslot, ?_⟩, hi⟩, fun ⟨⟨hslot, _⟩, hi⟩ => ⟨hslot, hi⟩⟩
  have hlt := (List.getElem?_eq_some_iff.1 ((hplace i).2 hi)).1
  exact decide_eq_true (g.length_links ▸ hlt)

theorem link?_eq_none_iff (h : g.Represents m) {id : EdgeId} :
    m.link? id = none ↔ (slot? id).filter (· < g.edges.size) = none := by
  constructor
  · refine fun hlink => Option.eq_none_iff_forall_ne_some.2 fun i hi => ?_
    have hlt : i < m.links.length := by
      have hsize := of_decide_eq_true (Option.filter_eq_some_iff.1 hi).2
      rwa [← g.length_links, h.links, List.length_map] at hsize
    refine Option.eq_none_iff_forall_ne_some.1 hlink m.links[i] (h.link?_eq_some_iff.2 ⟨i, hi, ?_⟩)
    rw [h.links, List.getElem?_map, List.getElem?_eq_getElem hlt, Option.map_some]
  · refine fun hslot => Option.eq_none_iff_forall_ne_some.2 fun l hl => ?_
    obtain ⟨i, hi, -⟩ := h.link?_eq_some_iff.1 hl
    rw [hslot] at hi
    cases hi

theorem findIdx?_links (h : g.Represents m) (l : Link) :
    g.links.findIdx? (· == some l) = m.links.findIdx? (· == l) := by
  rw [h.links, List.findIdx?_map]
  exact congrArg (fun p => List.findIdx? p m.links) (funext fun l' => by simp)

/-! ## Operations -/

/-- Keeping relationships apart, an operation on nodes has to keep keys and attribute maps alike. -/
theorem of_nodes (h : g.Represents m) {nodes : Array Node} {keys : List NodeKey}
    {attributes : NodeKey → String → Option Value} (hwell : WellFormed { g with nodes })
    (hgrow : g.keys <+: Graph.keys { g with nodes }) (hkeys : Graph.keys { g with nodes } = keys)
    (hattributes : ∀ key name, attribute? { g with nodes } key name = attributes key name) :
    Represents { g with nodes } { m with keys, attributes } where
  wellFormed := hwell
  keys := hkeys
  attributes := hattributes
  links := (h.wellFormed.links_of_prefix hgrow).trans h.links
  linkAttributes l name := by
    have hlinks : Graph.links { g with nodes } = g.links := h.wellFormed.links_of_prefix hgrow
    rw [linkAttribute?, hlinks]
    exact h.linkAttributes l name

theorem mergeNode (h : g.Represents m) (key : NodeKey) (given : Attributes) :
    (g.perform (.mergeNode key given)).1 = (m.perform (.mergeNode key given)).1 ∧
      (g.perform (.mergeNode key given)).2.Represents (m.perform (.mergeNode key given)).2 := by
  have hedges := edges_mergeNode g key given
  have hgrow := (extends_mergeNode g key given).keys
  have hwell := h.wellFormed.mergeNode key given
  have hkeys := keys_mergeNode g key given
  have hidx : m.keys.findIdx? (· == key) = g.find? key := by rw [find?_eq_findIdx?, h.keys]
  -- what the merge does to one attribute map, new or old
  have hattributes (base : String → Option Value)
      (hbase : ∀ name, name ≠ key.label.keyAttribute → base name = g.attribute? key name)
      (hkey : base key.label.keyAttribute =
        if key ∈ g.keys then g.attribute? key key.label.keyAttribute else some (.text key.key))
      (other : NodeKey) (name : String) :
      (g.mergeNode key given).1.attribute? other name =
        Function.update m.attributes key
          (KeyedModel.overwritten key.label given base) other name := by
    by_cases hother : other = key
    · subst hother
      rw [Function.update_self, KeyedModel.overwritten]
      split
      case isTrue hname => rw [hname, attribute?_mergeNode_keyAttribute, hkey]
      case isFalse hname => rw [attribute?_mergeNode hname, hbase name hname]
    · rw [Function.update_of_ne hother, attribute?_mergeNode_of_ne (Ne.symm hother), h.attributes]
  have hsplit (g' : Graph) (hg' : g'.edges = g.edges) : g' = { g with nodes := g'.nodes } := by
    rw [← hg']
  simp only [perform, KeyedModel.perform, hidx]
  cases hfind : g.find? key with
  | some id =>
    have hmem : key ∈ g.keys := isSome_find?_iff.1 (by rw [hfind]; rfl)
    rw [if_pos hmem] at hkeys
    refine ⟨by rw [mergeNode_of_find?_eq_some hfind], ?_⟩
    rw [hsplit _ hedges] at hwell hgrow hkeys hattributes ⊢
    refine h.of_nodes hwell hgrow (hkeys.trans h.keys) (hattributes _ ?_ ?_)
    · exact fun name _ => (h.attributes key name).symm
    · rw [if_pos hmem, h.attributes]
  | none =>
    have hmem : key ∉ g.keys := find?_eq_none_iff.1 hfind
    rw [if_neg hmem] at hkeys
    refine ⟨by rw [mergeNode_of_find?_eq_none hfind, ← h.keys, length_keys], ?_⟩
    rw [hsplit _ hedges] at hwell hgrow hkeys hattributes ⊢
    refine h.of_nodes hwell hgrow (hkeys.trans (by rw [h.keys])) (hattributes _ ?_ ?_)
    · intro name hname
      rw [KeyedModel.freshAttributes, if_neg hname, attribute?_of_notMem hmem]
    · rw [KeyedModel.freshAttributes, if_pos rfl, if_neg hmem]

/-- A relationship between nodes of a represented model that is not there yet. -/
theorem pushEdge (h : g.Represents m) {a b : NodeId} {l : Link} (ha : g.position? a = some a)
    (hb : g.position? b = some b) (hlink : g.link? (a, b, l.relation) = some l)
    (hfind : g.findEdge? a b l.relation = none) :
    Represents { g with edges := g.edges.push ⟨a, b, l.relation, Dict.empty⟩ }
      { m with links := m.links ++ [l], linkAttributes :=
        Function.update m.linkAttributes l fun _ => none } := by
  have hlinks : Graph.links { g with edges := g.edges.push ⟨a, b, l.relation, Dict.empty⟩ } =
      g.links ++ [some l] := by
    rw [Graph.links, ends_push, List.map_append]
    exact congrArg (g.links ++ [·]) hlink
  have hnew : g.links.findIdx? (· == some l) = none :=
    (h.wellFormed.findEdge?_eq_findIdx?_links hlink).symm.trans hfind
  refine ⟨h.wellFormed.pushEdge (findEdge?_eq_none_iff.1 hfind) ha hb, h.keys, h.attributes, ?_,
    fun l' name => ?_⟩
  · rw [hlinks, h.links, List.map_append]
    rfl
  change _ = Function.update m.linkAttributes l (fun _ => none) l' name
  by_cases hl : l' = l
  · subst hl
    have hlast : (g.links ++ [some l']).findIdx? (· == some l') = some g.edges.size := by
      rw [List.findIdx?_append, hnew, List.findIdx?_singleton, ← g.length_links]
      simp
    rw [linkAttribute?, hlinks, hlast, Function.update_self]
    simp
  · rw [linkAttribute?, hlinks, Function.update_of_ne hl, ← h.linkAttributes, linkAttribute?]
    cases hold : g.links.findIdx? (· == some l') with
    | some i =>
      have hlt : i < g.edges.size := g.length_links ▸ (List.findIdx?_eq_some_iff_getElem.1 hold).1
      rw [findIdx?_append_of_eq_some hold, Option.bind_some, Option.bind_some, Array.getElem?_push,
        if_neg (Nat.ne_of_lt hlt)]
    | none =>
      have hne : (some l == some l') = false := by simpa using Ne.symm hl
      rw [List.findIdx?_append, hold, List.findIdx?_singleton, hne]
      rfl

theorem mergeEdge (h : g.Represents m) (start target : NodeId) (relation : Relation) :
    (g.perform (.mergeEdge start target relation)).1 =
        (m.perform (.mergeEdge start target relation)).1 ∧
      (g.perform (.mergeEdge start target relation)).2.Represents
        (m.perform (.mergeEdge start target relation)).2 := by
  -- an end that names nothing
  have hmissing (hmodel : m.key? start = none ∨ m.key? target = none) :
      m.perform (.mergeEdge start target relation) = (.missing, m) ∧
        g.perform (.mergeEdge start target relation) = (.missing, g) := by
    have hgraph : g.mergeEdge start target relation = none :=
      mergeEdge_eq_none_iff.2 (hmodel.imp h.key?_eq_none_iff.1 h.key?_eq_none_iff.1)
    refine ⟨?_, by simp only [perform, hgraph]⟩
    rcases hmodel with hnone | hnone
    · simp only [KeyedModel.perform, hnone]
    · cases hstart : m.key? start <;> simp only [KeyedModel.perform, hstart, hnone]
  cases hstart : m.key? start with
  | none =>
    obtain ⟨hm, hg⟩ := hmissing (.inl hstart)
    rw [hm, hg]
    exact ⟨rfl, h⟩
  | some ka =>
    cases htarget : m.key? target with
    | none =>
      obtain ⟨hm, hg⟩ := hmissing (.inr htarget)
      rw [hm, hg]
      exact ⟨rfl, h⟩
    | some kb =>
      obtain ⟨a, ha, hka⟩ := h.key?_eq_some_iff.1 hstart
      obtain ⟨b, hb, hkb⟩ := h.key?_eq_some_iff.1 htarget
      have hlink : g.link? (a, b, relation) = some ⟨ka, kb, relation⟩ :=
        Graph.link?_eq_some_iff.2 ⟨hka, hkb, rfl⟩
      have hidx : m.links.findIdx? (· == Link.mk ka kb relation) = g.findEdge? a b relation := by
        rw [← h.findIdx?_links]
        exact (h.wellFormed.findEdge?_eq_findIdx?_links hlink).symm
      simp only [perform, KeyedModel.perform, hstart, htarget, hidx]
      cases hfind : g.findEdge? a b relation with
      | some id =>
        rw [mergeEdge_of_findEdge?_eq_some ha hb hfind]
        exact ⟨rfl, h⟩
      | none =>
        rw [mergeEdge_of_findEdge?_eq_none ha hb hfind]
        refine ⟨?_, h.pushEdge (l := ⟨ka, kb, relation⟩) (position?_of_position?_eq_some ha)
          (position?_of_position?_eq_some hb) hlink hfind⟩
        rw [← g.length_links, h.links, List.length_map]

theorem writeNode (h : g.Represents m) (id : NodeId) (name : String) (value : Value) :
    (g.perform (.writeNode id name value)).1 = (m.perform (.writeNode id name value)).1 ∧
      (g.perform (.writeNode id name value)).2.Represents
        (m.perform (.writeNode id name value)).2 := by
  cases hkey : m.key? id with
  | none =>
    have hpos := h.key?_eq_none_iff.1 hkey
    simp only [perform, Graph.modifyNode, hpos, KeyedModel.perform, hkey]
    exact ⟨rfl, h⟩
  | some key =>
    obtain ⟨i, hi, hplace⟩ := h.key?_eq_some_iff.1 hkey
    have hwrite : g.modifyNode id (·.insert name value) = some { g with
        nodes := g.nodes.modify i fun n =>
          { n with attributes := n.attributes.insert name value } } := by
      rw [modifyNode, hi]
      rfl
    have hkeys := keys_modify g i (·.insert name value)
    simp only [Graph.perform, hwrite, KeyedModel.perform, hkey]
    refine ⟨trivial, h.of_nodes (h.wellFormed.modifyNode i (·.insert name value))
      (hkeys ▸ List.prefix_rfl) (hkeys.trans h.keys) fun other n => ?_⟩
    have hfind : g.find? key = some i := h.wellFormed.find?_eq_some_iff.2 hplace
    by_cases hother : other = key
    · subst hother
      obtain ⟨node, hnode, -⟩ := find?_eq_some hfind
      rw [Function.update_self, attribute?_modify (f := (·.insert name value)) hfind hnode,
        Dict.get?_insert, ← attribute?_of_find? hfind hnode n, h.attributes]
      by_cases hn : n = name
      · rw [if_pos hn.symm, hn, Function.update_self]
      · rw [if_neg (Ne.symm hn), Function.update_of_ne hn]
    · have hne : g.find? other ≠ some i := fun hfound =>
        hother (Option.some.inj ((h.wellFormed.find?_eq_some_iff.1 hfound).symm.trans hplace))
      rw [Function.update_of_ne hother, attribute?_modify_of_ne (f := (·.insert name value)) hne,
        h.attributes]

theorem writeEdge (h : g.Represents m) (id : EdgeId) (name : String) (value : Value) :
    (g.perform (.writeEdge id name value)).1 = (m.perform (.writeEdge id name value)).1 ∧
      (g.perform (.writeEdge id name value)).2.Represents
        (m.perform (.writeEdge id name value)).2 := by
  cases hslot : (slot? id).filter (· < g.edges.size) with
  | none =>
    have hmodel : m.link? id = none := h.link?_eq_none_iff.2 hslot
    simp only [Graph.perform, modifyEdge, hslot, KeyedModel.perform, hmodel]
    exact ⟨rfl, h⟩
  | some i =>
    obtain ⟨l, hl⟩ := Option.ne_none_iff_exists'.1 fun hnone => by
      rw [h.link?_eq_none_iff.1 hnone] at hslot
      cases hslot
    obtain ⟨j, hj, hplace⟩ := h.link?_eq_some_iff.1 hl
    cases hslot.symm.trans hj
    have hwrite : g.modifyEdge id (·.insert name value) = some { g with
        edges := g.edges.modify i fun e =>
          { e with attributes := e.attributes.insert name value } } := by
      rw [modifyEdge, hslot]
      rfl
    have hends := ends_modify g i (·.insert name value)
    have hlinks : Graph.links { g with
        edges := g.edges.modify i fun e =>
          { e with attributes := e.attributes.insert name value } } =
        g.links := by
      rw [Graph.links, hends]
      rfl
    simp only [Graph.perform, hwrite, KeyedModel.perform, hl]
    refine ⟨trivial, h.wellFormed.modifyEdge i (·.insert name value), h.keys, h.attributes,
      hlinks.trans h.links, fun other n => ?_⟩
    change _ = Function.update m.linkAttributes l _ other n
    rw [linkAttribute?, hlinks]
    by_cases hother : other = l
    · subst hother
      have hfind : g.links.findIdx? (· == some other) = some i :=
        (findIdx?_eq_some_iff_of_nodup h.wellFormed.links_unique).2 hplace
      have hlt : i < g.edges.size := of_decide_eq_true (Option.filter_eq_some_iff.1 hslot).2
      have hold : m.linkAttributes other n = g.edges[i].attributes.get? n := by
        rw [← h.linkAttributes, linkAttribute?, hfind, Option.bind_some,
          Array.getElem?_eq_getElem hlt, Option.bind_some]
      rw [Function.update_self, hfind, Option.bind_some, Array.getElem?_modify, if_pos rfl,
        Array.getElem?_eq_getElem hlt, Option.map_some, Option.bind_some, Dict.get?_insert]
      by_cases hn : n = name
      · rw [if_pos hn.symm, hn, Function.update_self]
      · rw [if_neg (Ne.symm hn), Function.update_of_ne hn, hold]
    · rw [Function.update_of_ne hother, ← h.linkAttributes, linkAttribute?]
      cases hfind : g.links.findIdx? (· == some other) with
      | none => rfl
      | some j =>
        have hne : i ≠ j := by
          rintro rfl
          have hplace' := (findIdx?_eq_some_iff_of_nodup h.wellFormed.links_unique).1 hfind
          exact hother (Option.some.inj (Option.some.inj (hplace'.symm.trans hplace)))
        rw [Option.bind_some, Option.bind_some, Array.getElem?_modify, if_neg hne]

theorem perform (h : g.Represents m) (op : Operation) :
    (g.perform op).1 = (m.perform op).1 ∧ (g.perform op).2.Represents (m.perform op).2 := by
  cases op with
  | mergeNode key given => exact h.mergeNode key given
  | mergeEdge start target relation => exact h.mergeEdge start target relation
  | writeNode id name value => exact h.writeNode id name value
  | writeEdge id name value => exact h.writeEdge id name value
  | clear => exact ⟨rfl, represents_empty⟩

theorem run (h : g.Represents m) (ops : List Operation) :
    (Graph.run ops g).1 = (KeyedModel.run ops m).1 ∧
      (Graph.run ops g).2.Represents (KeyedModel.run ops m).2 := by
  induction ops generalizing g m with
  | nil => exact ⟨rfl, h⟩
  | cons op ops ih =>
    obtain ⟨hanswer, hnext⟩ := h.perform op
    obtain ⟨hanswers, hlast⟩ := ih hnext
    exact ⟨congrArg₂ List.cons hanswer hanswers, hlast⟩

end Represents

/-! ## What a run comes to -/

/-- What merging a node does: the answer says whether the key is new, a new node gets
the next number, and only the given attributes other than the key attribute are
overwritten, in that node alone. -/
def MergesNode (g : Graph) (key : NodeKey) (given : Attributes) : Prop :=
  ∃ id g', g.perform (.mergeNode key given) = (.merged id (decide (key ∉ g.keys)), g') ∧
    (key ∉ g.keys → id = g.nodes.size) ∧ g'.find? key = some id ∧ g'.edges = g.edges ∧
    (∀ other name, other ≠ key → g'.attribute? other name = g.attribute? other name) ∧
    ∀ name, g'.attribute? key name =
      if name ≠ key.label.keyAttribute then (given.get? name).or (g.attribute? key name)
      else if key ∈ g.keys then g.attribute? key name else some (.text key.key)

/-- What merging a relationship between existing nodes does: the answer says whether it is new, and
a new one gets the next number. -/
def MergesEdge (g : Graph) (a b : NodeId) (relation : Relation) : Prop :=
  ∃ id g', g.perform (.mergeEdge a b relation) =
    (.merged id (decide ((a, b, relation) ∉ g.ends)), g') ∧
    ((a, b, relation) ∉ g.ends → id = g.edges.size) ∧ g'.ends[id]? = some (a, b, relation) ∧
    g'.nodes = g.nodes ∧ ∀ (i : EdgeId) (e : Edge), g.edges[i]? = some e → g'.edges[i]? = some e

/-- What a run of operations on the empty graph comes to. -/
structure Faithful (ops : List Operation) : Prop where
  /-- The graph is the keyed model. -/
  represents : (run ops empty).2.Represents (KeyedModel.run ops .empty).2
  /-- It answers as the keyed model does. -/
  answers : (run ops empty).1 = (KeyedModel.run ops .empty).1
  /-- Tables kept beside the storage stay in step with it and lead to the same. -/
  inStep : (IndexedGraph.run ops .empty).2.InStep
  indexed : run ops empty =
    ((IndexedGraph.run ops .empty).1, (IndexedGraph.run ops .empty).2.storage)
  /-- The numbers below the counts, and only they, name nodes and relationships. -/
  nodeIds : ∀ i, i < (run ops empty).2.nodes.size → ((run ops empty).2.node? i).isSome
  edgeIds : ∀ i, i < (run ops empty).2.edges.size → ((run ops empty).2.edge? i).isSome
  /-- A look-up finds a node exactly if it has the key. -/
  find : ∀ key i, (run ops empty).2.find? key = some i ↔
    i < (run ops empty).2.nodes.size ∧ ((run ops empty).2.node? i).map Node.nodeKey = some key
  nodes_unique : ((run ops empty).2.nodes.toList.map Node.nodeKey).Nodup
  edges_unique : ((run ops empty).2.edges.toList.map Edge.ends).Nodup
  endpoints : ∀ e ∈ (run ops empty).2.edges.toList,
    ((run ops empty).2.node? e.start).isSome ∧ ((run ops empty).2.node? e.target).isSome
  /-- What the next merges do. -/
  mergesNode : ∀ key given, (run ops empty).2.MergesNode key given
  mergesEdge : ∀ a b relation, a < (run ops empty).2.nodes.size → b < (run ops empty).2.nodes.size →
    (run ops empty).2.MergesEdge a b relation
  /-- Until the graph is cleared, nothing is lost. -/
  persists : ∀ more, .clear ∉ more → Persists (run ops empty).2 (run (ops ++ more) empty).2

theorem mergesNode (g : Graph) (key : NodeKey) (given : Attributes) : g.MergesNode key given := by
  have hname (name : String) : (g.mergeNode key given).1.attribute? key name =
      if name ≠ key.label.keyAttribute then (given.get? name).or (g.attribute? key name)
      else if key ∈ g.keys then g.attribute? key name else some (.text key.key) := by
    by_cases hkey : name = key.label.keyAttribute
    · rw [if_neg (not_not_intro hkey), hkey, attribute?_mergeNode_keyAttribute]
    · rw [if_pos hkey, attribute?_mergeNode hkey]
  have hother (other : NodeKey) (name : String) (h : other ≠ key) :
      (g.mergeNode key given).1.attribute? other name = g.attribute? other name :=
    attribute?_mergeNode_of_ne (Ne.symm h) given name
  cases hfind : g.find? key with
  | none =>
    have hkey : key ∉ g.keys := find?_eq_none_iff.1 hfind
    refine ⟨g.nodes.size, _, ?_, fun _ => rfl, ?_, edges_mergeNode g key given, hother, hname⟩
    · rw [decide_eq_true hkey, perform, mergeNode_of_find?_eq_none hfind]
    · rw [find?_eq_findIdx?, keys_mergeNode, if_neg hkey, findIdx?_concat_self hkey, length_keys]
  | some id =>
    have hkey : key ∈ g.keys := isSome_find?_iff.1 (by rw [hfind]; rfl)
    refine ⟨id, _, ?_, fun h => absurd hkey h, (extends_mergeNode g key given).find?_eq_some hfind,
      edges_mergeNode g key given, hother, hname⟩
    rw [decide_eq_false (not_not_intro hkey), perform, mergeNode_of_find?_eq_some hfind]

theorem Addressable.mergesEdge (h : g.Addressable) {a b : NodeId} (ha : a < g.nodes.size)
    (hb : b < g.nodes.size) (relation : Relation) : g.MergesEdge a b relation := by
  have ha' := h.position? ha
  have hb' := h.position? hb
  cases hfind : g.findEdge? a b relation with
  | none =>
    have hends : (a, b, relation) ∉ g.ends := findEdge?_eq_none_iff.1 hfind
    refine ⟨g.edges.size, { g with edges := g.edges.push ⟨a, b, relation, Dict.empty⟩ }, ?_,
      fun _ => rfl, ?_, rfl, fun i e he => ?_⟩
    · rw [decide_eq_true hends, perform, mergeEdge_of_findEdge?_eq_none ha' hb' hfind]
    · rw [ends_push, ← length_ends, List.getElem?_concat_length]
      rfl
    · have hlt : i < g.edges.size := (Array.getElem?_eq_some_iff.1 he).1
      rw [Array.getElem?_push, if_neg (Nat.ne_of_lt hlt), he]
  | some id =>
    have hplace : g.ends[id]? = some (a, b, relation) := by
      rw [findEdge?_eq_findIdx?] at hfind
      obtain ⟨hlt, hx, -⟩ := List.findIdx?_eq_some_iff_getElem.1 hfind
      rw [List.getElem?_eq_getElem hlt, eq_of_beq hx]
    have hends : (a, b, relation) ∈ g.ends := List.mem_of_getElem? hplace
    refine ⟨id, g, ?_, fun hnot => absurd hends hnot, hplace, rfl, fun _ _ he => he⟩
    rw [decide_eq_false (not_not_intro hends), perform,
      mergeEdge_of_findEdge?_eq_some ha' hb' hfind]

/-- **The graph is the keyed model**, after any run of operations that leaves it fewer than 2³² − 1
nodes and relationships. -/
theorem faithful_run (ops : List Operation) (h : (run ops empty).2.Addressable) : Faithful ops := by
  obtain ⟨hanswers, hrep⟩ := represents_empty.run ops
  obtain ⟨hstep, hindexed⟩ := IndexedGraph.inStep_empty.run ops
  have hnode {i : NodeId} (hi : i < (run ops empty).2.nodes.size) :
      ((run ops empty).2.node? i).isSome := by
    rw [h.node? hi, Array.getElem?_eq_getElem hi]
    rfl
  have hend {id i : NodeId} (hi : (run ops empty).2.position? id = some i) :
      i < (run ops empty).2.nodes.size := (position?_eq_some.1 hi).2
  refine ⟨hrep, hanswers, hstep, hindexed, fun _ => hnode, fun i hi => ?_, fun key i => ?_,
    hrep.wellFormed.nodes_unique, hrep.wellFormed.edges_unique, fun e he => ?_, mergesNode _,
    fun a b relation ha hb => h.mergesEdge ha hb relation, fun more hmore => ?_⟩
  · rw [h.edge? hi, Array.getElem?_eq_getElem hi]
    rfl
  · rw [hrep.wellFormed.find?_eq_some_iff, getElem?_keys]
    constructor
    · intro hi
      obtain ⟨n, hn, hkey⟩ := Option.map_eq_some_iff.1 hi
      have hlt := (Array.getElem?_eq_some_iff.1 hn).1
      exact ⟨hlt, by rw [h.node? hlt, hn, Option.map_some, hkey]⟩
    · rintro ⟨hlt, hi⟩
      rwa [h.node? hlt] at hi
  · obtain ⟨hstart, htarget⟩ := hrep.wellFormed.endpoints e he
    exact ⟨hnode (hend hstart), hnode (hend htarget)⟩
  · rw [run_append]
    exact persists_run more _ hmore

/-- Two kinds of loop at one class, a repetition, and reuse after a removal. -/
def loops : List Operation :=
  [.mergeNode ⟨.classType, "A"⟩ .empty, .mergeEdge 0 0 .extends, .mergeEdge 0 0 .usesClass,
    .mergeEdge 0 0 .extends, .clear, .mergeEdge 0 0 .extends, .mergeNode ⟨.field, "A"⟩ .empty]

theorem faithful_loops :
    (run loops empty).1 = [.merged 0 true, .merged 0 true, .merged 1 true, .merged 0 false,
      .done, .missing,
      .merged 0 true] ∧
    (run loops empty).2.Addressable ∧ Faithful loops :=
  ⟨by decide +kernel, by decide +kernel, faithful_run loops (by decide +kernel)⟩

end Graph

end CodeGraph
