import CodeGraph.Command.Run
import CodeGraph.Proofs.Graph.Content
import CodeGraph.Proofs.Graph.Listing
import CodeGraph.Proofs.Snapshot.Reload
import CodeGraph.Proofs.Store.History

/-!
# What key attributes hold

A node is made with its natural key under the key attribute of its label, and merges leave that
attribute alone. Only the write of a single attribute may put another value in its place, and this
value stays until the node is gone or the store is opened anew, when the natural key comes back
(`History.overwrite?`).

* `History.overwrite?_cons`: what one more change does to the key attribute of a node.
* `History.get?_keyAttribute`: so the attribute holds that, after any history.
* `History.scan_keyAttribute`: a scan of a label for its key attribute meets all nodes of the label
  but those whose key was nulled.
* `History.survivesReload_iff`: a store survives being saved and opened if its nodes hold
  their keys, and only then.
* `History.keyAttributes_of_history`: all of it in one.

The writes make a difference: `History.not_holdsKeys_nulledKey` counts no node where there is one.
-/

namespace CodeGraph

/-- A merge leaves the key attribute of an old node alone, and a new node holds its key. -/
theorem Graph.getElem?_nodes_mergeNode {g : Graph} {key : NodeKey} {given : Attributes} {i : NodeId}
    {n : Node} (hn : (g.mergeNode key given).1.nodes[i]? = some n) :
    (∃ m, g.nodes[i]? = some m ∧ m.nodeKey = n.nodeKey ∧
        n.attributes.get? n.label.keyAttribute = m.attributes.get? m.label.keyAttribute) ∨
      i = g.nodes.size ∧ n.HoldsKey := by
  cases hfind : g.find? key with
  | none =>
    rw [mergeNode_of_find?_eq_none hfind] at hn
    rw [Array.getElem?_push] at hn
    split at hn
    case isTrue hi => cases hn; exact .inr ⟨hi, holdsKey_newNode key given⟩
    case isFalse => exact .inl ⟨n, hn, rfl, rfl⟩
  | some id =>
    rw [mergeNode_of_find?_eq_some hfind] at hn
    rw [Array.getElem?_modify] at hn
    split at hn
    case isTrue hi =>
      obtain ⟨m, hm, rfl⟩ := Option.map_eq_some_iff.1 hn
      obtain ⟨m', hm', rfl⟩ := find?_eq_some hfind
      cases (hi ▸ hm).symm.trans hm'
      exact .inl ⟨m, hm, rfl, get?_overwrite_keyAttribute _ given _⟩
    case isFalse => exact .inl ⟨n, hn, rfl, rfl⟩

namespace Store

variable {s : Store} {i : NodeId} {n : Node}

/-- To write an attribute of the node that an id names is to write the key attribute of a node. -/
def WritesKey (s : Store) (id : NodeId) (name : String) (i : NodeId) : Prop :=
  s.state.graph.position? id = some i ∧ s.state.graph.nodes[i]?.any (·.label.keyAttribute = name)

instance (s : Store) (id : NodeId) (name : String) (i : NodeId) :
    Decidable (s.WritesKey id name i) :=
  inferInstanceAs (Decidable (_ ∧ _))

/-- Between two stores the node at a position keeps what its key attribute holds, or it is a
new one that holds its key. -/
structure KeepsKeyAt (i : NodeId) (s s' : Store) : Prop where
  size_le : s.state.graph.nodes.size ≤ s'.state.graph.nodes.size
  node : ∀ n, s'.state.graph.nodes[i]? = some n →
    (∃ m, s.state.graph.nodes[i]? = some m ∧ m.nodeKey = n.nodeKey ∧
        n.attributes.get? n.label.keyAttribute = m.attributes.get? m.label.keyAttribute) ∨
      i = s.state.graph.nodes.size ∧ n.HoldsKey

theorem KeepsKeyAt.of_nodes_eq {s' : Store} (h : s'.state.graph.nodes = s.state.graph.nodes)
    (i : NodeId) :
    KeepsKeyAt i s s' :=
  ⟨h ▸ le_rfl, fun n hn => .inl ⟨n, h ▸ hn, rfl, rfl⟩⟩

theorem keepsKeyAt_after {α ε : Type} {r : Except ε (α × Store)} (i : NodeId)
    (hr : ∀ a s', r = .ok (a, s') → KeepsKeyAt i s s') : KeepsKeyAt i s (s.after r) :=
  after_induction (P := KeepsKeyAt i s) (.of_nodes_eq rfl i) hr

/-- The write of a key attribute is seen there. -/
theorem after_setAttribute (hs : s.connected) {id : NodeId} {name : String}
    (hkey : s.WritesKey id name i) (value : Value) :
    ∃ n, (s.after (s.setAttribute id name value)).state.graph.nodes[i]? = some n ∧
      n.attributes.get? n.label.keyAttribute = some value := by
  have hi : i < s.state.graph.nodes.size := (Graph.position?_eq_some.1 hkey.1).2
  have hn := Array.getElem?_eq_getElem hi
  have hname : s.state.graph.nodes[i].label.keyAttribute = name := by simpa [hn] using hkey.2
  refine ⟨{ s.state.graph.nodes[i] with attributes :=
    s.state.graph.nodes[i].attributes.insert name value }, ?_, ?_⟩
  · rw [setAttribute_of_position? hs hkey.1, after, Array.getElem?_modify, if_pos rfl, hn]
    rfl
  · rw [hname]
    exact Dict.get?_insert_self _ name value

/-- The write of another attribute, or to another node. -/
theorem keepsKeyAt_setAttribute {id : NodeId} {name : String} {value : Value} {a : Unit}
    {s' : Store} (hs : s.setAttribute id name value = .ok (a, s')) (hkey : ¬s.WritesKey id name i) :
    KeepsKeyAt i s s' := by
  obtain ⟨j, hj, rfl⟩ := setAttribute_eq_ok hs
  refine ⟨le_of_eq (Array.size_modify ..).symm, fun n hn => ?_⟩
  rw [Array.getElem?_modify] at hn
  split at hn
  case isFalse => exact .inl ⟨n, hn, rfl, rfl⟩
  case isTrue hji =>
    obtain ⟨m, hm, rfl⟩ := Option.map_eq_some_iff.1 hn
    have hname : name ≠ m.label.keyAttribute := by
      rintro rfl
      exact hkey ⟨hji ▸ hj, by simp [hm]⟩
    exact .inl ⟨m, hm, rfl, Dict.get?_insert_of_ne hname m.attributes value⟩

namespace History

/-- What was last written in place of the key attribute of a node, since the node was
made or the store was opened. -/
def overwrite? : History → NodeId → Option Value
  | [], _ => none
  | .setAttribute id name value :: earlier, i =>
    if (store earlier).WritesKey id name i then some value else overwrite? earlier i
  | .wipe :: _, _ => none
  | .openFrom files path :: earlier, i =>
    match Store.openFrom files path with
    | .ok _ => none
    | .error _ => overwrite? earlier i
  | _ :: earlier, i => overwrite? earlier i

/-- **What one more change does to the key attribute of a node**: the node keeps what it holds, or
the attribute is written, or the store is another one whose nodes hold their keys. -/
theorem overwrite?_cons (c : Change) (earlier : History) (i : NodeId) :
    (overwrite? (c :: earlier) i = overwrite? earlier i ∧
        KeepsKeyAt i (store earlier) (store (c :: earlier))) ∨
      (∃ v, overwrite? (c :: earlier) i = some v ∧
        ∃ n, (store (c :: earlier)).state.graph.nodes[i]? = some n ∧
          n.attributes.get? n.label.keyAttribute = some v) ∨
      (overwrite? (c :: earlier) i = none ∧ (store (c :: earlier)).state.graph.HoldsKeys) := by
  cases c with
  | mergeNode key given =>
    refine .inl ⟨rfl, keepsKeyAt_after i fun id s' hs => ?_⟩
    rw [mergeNode_eq_ok hs]
    exact ⟨(Graph.extends_mergeNode _ key given).size_le, fun n hn =>
      Graph.getElem?_nodes_mergeNode hn⟩
  | mergeEdge start target relation =>
    refine .inl ⟨rfl, keepsKeyAt_after i fun id s' hs => ?_⟩
    obtain ⟨a, b, graph, isNew, hmerge, rfl⟩ := mergeEdge_eq_ok hs
    exact .of_nodes_eq (Graph.nodes_of_mergeEdge hmerge) i
  | setAttribute id name value =>
    by_cases hkey : (store earlier).WritesKey id name i
    case pos =>
      exact .inr (.inl ⟨value, if_pos hkey, after_setAttribute (connected earlier) hkey value⟩)
    case neg => exact .inl ⟨if_neg hkey, keepsKeyAt_after i fun _ s' hs =>
      keepsKeyAt_setAttribute hs hkey⟩
  | createIndex index =>
    refine .inl ⟨rfl, keepsKeyAt_after i fun _ s' hs => ?_⟩
    obtain ⟨-, state, hstate, rfl⟩ := write_eq_ok.1 hs
    cases hstate
    exact .of_nodes_eq (by rfl) i
  | dropIndex name =>
    refine .inl ⟨rfl, keepsKeyAt_after i fun _ s' hs => ?_⟩
    obtain ⟨-, state, hstate, rfl⟩ := write_eq_ok.1 hs
    cases hstate
    exact .of_nodes_eq (by rfl) i
  | wipe =>
    refine .inr (.inr ⟨rfl, ?_⟩)
    rw [store, Change.perform, wipe_of_connected (connected earlier)]
    intro n hn
    cases hn
  | openFrom files path =>
    rw [store, Change.perform, overwrite?]
    cases hopen : Store.openFrom files path with
    | error e => exact .inl ⟨rfl, .of_nodes_eq rfl i⟩
    | ok s => exact .inr (.inr ⟨rfl, (wellFormed_openFrom hopen).holdsKeys⟩)

/-- Only attributes of nodes that are there were overwritten. -/
theorem lt_of_overwrite? {h : History} {v : Value} (hv : overwrite? h i = some v) :
    i < (store h).state.graph.nodes.size := by
  induction h generalizing v with
  | nil => cases hv
  | cons c earlier ih =>
    rcases overwrite?_cons c earlier i with ⟨hsame, hkeeps⟩ | ⟨-, -, n, hn, -⟩ | ⟨hnone, -⟩
    · exact Nat.lt_of_lt_of_le (ih (hsame ▸ hv)) hkeeps.size_le
    · exact (Array.getElem?_eq_some_iff.1 hn).1
    · rw [hnone] at hv
      cases hv

/-- **The key attribute of a node is the natural key, or what was last written in its place.** -/
theorem get?_keyAttribute {h : History} (hn : (store h).state.graph.nodes[i]? = some n) :
    n.attributes.get? n.label.keyAttribute = some ((overwrite? h i).getD (.text n.key)) := by
  induction h generalizing n with
  | nil => cases hn
  | cons c earlier ih =>
    rcases overwrite?_cons c earlier i with
      ⟨hsame, hkeeps⟩ | ⟨v, hv, m, hm, hheld⟩ | ⟨hnone, hholds⟩
    · rw [hsame]
      rcases hkeeps.node n hn with ⟨m, hm, hkey, hheld⟩ | ⟨hnew, hholds⟩
      · have hkey' : m.key = n.key := congrArg NodeKey.key hkey
        rw [hheld, ih hm, hkey']
      · have hnone : overwrite? earlier i = none := by
          by_contra hsome
          obtain ⟨v, hv⟩ := Option.ne_none_iff_exists'.1 hsome
          exact Nat.ne_of_lt (lt_of_overwrite? hv) hnew
        rw [hnone]
        exact hholds
    · cases hn.symm.trans hm
      rw [hv]
      exact hheld
    · rw [hnone]
      exact hholds n (List.mem_of_getElem? (Array.getElem?_toList.trans hn))

theorem holdsKeys_iff (h : History) :
    (store h).state.graph.HoldsKeys ↔
      ∀ i n v, (store h).state.graph.nodes[i]? = some n → overwrite? h i = some v →
        v = .text n.key := by
  constructor
  · intro hkeys i n v hn hv
    have hheld := hkeys n (List.mem_of_getElem? (Array.getElem?_toList.trans hn))
    rw [Node.HoldsKey, get?_keyAttribute hn, hv] at hheld
    exact Option.some.inj hheld
  · intro hall n hmem
    obtain ⟨i, hi⟩ := Array.getElem?_of_mem (Array.mem_toList_iff.1 hmem)
    rw [Node.HoldsKey, get?_keyAttribute hi]
    cases hv : overwrite? h i with
    | none => rfl
    | some v => rw [hall i n v hi hv]; rfl

/-! ## Counting -/

/-- The nodes of a label that a scan for the key attribute meets are those where it
was not nulled. -/
def counted (h : History) (l : Label) : List NodeId :=
  ((store h).state.graph.withLabel l).filter fun i => overwrite? h i ≠ some .null

theorem scan_keyAttribute (h : History) (l : Label) :
    ∃ page, (store h).scan l l.keyAttribute 0 none = .ok page ∧ page.map (·.id) = counted h l := by
  rw [scan, read, if_pos (connected h)]
  refine ⟨_, rfl, ?_⟩
  rw [counted, Graph.withLabel, List.map_map, List.filter_map, List.filter_filter, List.drop_zero]
  refine congrArg (List.map _) (List.filter_congr fun x hx => ?_)
  obtain ⟨i, n⟩ := x
  have hheld := get?_keyAttribute (Graph.mem_nodeList.1 hx)
  by_cases hl : n.label = l
  case neg => simp [beq_false_of_ne hl]
  case pos =>
    subst hl
    cases hv : overwrite? h i with
    | none => simp [hheld, hv, Value.isNull]
    | some v => cases v <;> simp [hheld, hv, Value.isNull]

theorem statistics_store (h : History) :
    Command.statistics (store h) = .ok (.object [
      ("labels", .object (Dict.ofList (Label.all.map fun l =>
        (l.name, .ofNat (counted h l).length))).toList),
      ("nodes", .ofNat (store h).state.graph.nodes.size),
      ("relationships", .ofNat (store h).state.graph.edges.size)]) := by
  have hcounts : (store h).counts =
      .ok ⟨(store h).state.graph.nodes.size, (store h).state.graph.edges.size⟩ := by
    rw [counts, read, if_pos (connected h)]
  have hlabel (l : Label) : (do
      return (l.name, Json.ofNat (← (store h).scan l l.keyAttribute 0 none).length)) =
        (.ok (l.name, .ofNat (counted h l).length) : Except StoreError (String × Json)) := by
    obtain ⟨page, hscan, hids⟩ := scan_keyAttribute h l
    rw [hscan, ← hids, List.length_map]
    rfl
  rw [Command.statistics, hcounts]
  simp only [hlabel]
  rfl

/-- The scans of all labels meet every node exactly once if no key attribute was
nulled, and only then. -/
theorem perm_counted_iff (h : History) :
    (Label.all.flatMap (counted h)).Perm (List.range (store h).state.graph.nodes.size) ↔
      ∀ i, overwrite? h i ≠ some .null := by
  have hperm : (Label.all.flatMap (counted h)).Perm
      ((List.range (store h).state.graph.nodes.size).filter fun i =>
        overwrite? h i ≠ some .null) := by
    have hfilter : Label.all.flatMap (counted h) =
        (Label.all.flatMap (store h).state.graph.withLabel).filter fun i =>
          overwrite? h i ≠ some .null := List.filter_flatMap.symm
    rw [hfilter]
    exact (Graph.perm_withLabel _).filter _
  constructor
  · intro hall i hnull
    have hi := List.mem_range.2 (lt_of_overwrite? hnull)
    have hmem := List.of_mem_filter (hperm.mem_iff.1 (hall.mem_iff.2 hi))
    exact of_decide_eq_true hmem hnull
  · intro hnone
    rwa [List.filter_eq_self.2 fun i _ => decide_eq_true (hnone i)] at hperm

/-! ## Saving -/

/-- What is opened holds its keys, so only a store that does can be got back. -/
theorem survivesReload_iff {h : History} (hfits : (store h).state.Fits) {savedAt : String}
    (ht : Snapshot.TextFits savedAt) :
    (store h).SurvivesReload savedAt ↔ (store h).state.graph.HoldsKeys := by
  constructor
  · rintro ⟨bytes, -, hsaved⟩
    obtain ⟨hsaveTo, hopen⟩ := hsaved .empty "/graph.bin"
    have hplace : Path.place "/graph.bin" = ["graph.bin"] := by decide +kernel
    rw [hplace] at hsaveTo
    exact (wellFormed_openFrom (hopen _ hsaveTo)).holdsKeys
  · exact fun hkeys => survivesReload_of_wellFormed ((consistent h).wellFormed hkeys)
      (connected h) hfits ht

/-! ## Key attributes -/

/-- **What key attributes hold after any history.** It is the natural key or what was last
written in its place. So all nodes hold their keys exactly if no other value was written;
the scans of all labels, which `Command.statistics` counts, meet every node exactly once
exactly if no null was written; and it is exactly the stores whose nodes hold their keys
that survive being saved and opened. -/
theorem keyAttributes_of_history (h : History) :
    (∀ i n, (store h).state.graph.nodes[i]? = some n →
      n.attributes.get? n.label.keyAttribute = some ((overwrite? h i).getD (.text n.key))) ∧
    ((store h).state.graph.HoldsKeys ↔
      ∀ i n v, (store h).state.graph.nodes[i]? = some n → overwrite? h i = some v →
        v = .text n.key) ∧
    (∃ pages : Label → List ScannedNode,
      (∀ l, (store h).scan l l.keyAttribute 0 none = .ok (pages l)) ∧
      Command.statistics (store h) = .ok (.object [
        ("labels",
          .object (Dict.ofList (Label.all.map fun l => (l.name, .ofNat (pages l).length))).toList),
        ("nodes", .ofNat (store h).state.graph.nodes.size),
        ("relationships", .ofNat (store h).state.graph.edges.size)]) ∧
      ((Label.all.flatMap fun l => (pages l).map (·.id)).Perm
          (List.range (store h).state.graph.nodes.size) ↔
        ∀ i, overwrite? h i ≠ some .null)) ∧
    ∀ savedAt, (store h).state.Fits → Snapshot.TextFits savedAt →
      ((store h).SurvivesReload savedAt ↔ (store h).state.graph.HoldsKeys) := by
  obtain ⟨pages, hpages⟩ := Classical.axiomOfChoice (scan_keyAttribute h)
  have hlength (l : Label) : (pages l).length = (counted h l).length := by
    rw [← (hpages l).2, List.length_map]
  refine ⟨fun i n => get?_keyAttribute, holdsKeys_iff h, ⟨pages, fun l => (hpages l).1, ?_, ?_⟩,
    fun savedAt hfits ht => survivesReload_iff hfits ht⟩
  · simp only [hlength]
    exact statistics_store h
  · simp only [hpages]
    exact perm_counted_iff h

/-- A class and its method. The key attribute of the class is written, with the key as its value. -/
def writtenKey : History :=
  [.setAttribute 0 "note" .null, .setAttribute 0 "name" (.text "A"),
    .mergeEdge ⟨.classType, "A"⟩ ⟨.method, "A.m()"⟩ .hasMethod,
    .mergeNode ⟨.method, "A.m()"⟩ Dict.empty,
    .mergeNode ⟨.classType, "A"⟩ (Dict.ofList [("name", .text "B")])]

theorem keyAttributes_writtenKey :
    (store writtenKey).state.Fits ∧ overwrite? writtenKey 0 = some (.text "A") ∧
      (store writtenKey).state.graph.HoldsKeys ∧ (store writtenKey).SurvivesReload "" := by
  have hfits : (store writtenKey).state.Fits := by decide +kernel
  have hheld : (store writtenKey).state.graph.HoldsKeys := by
    unfold Graph.HoldsKeys Node.HoldsKey
    decide +kernel
  obtain ⟨-, -, -, hsurvives⟩ := keyAttributes_of_history writtenKey
  exact ⟨hfits, by decide +kernel, hheld, (hsurvives "" hfits (by decide)).2 hheld⟩

/-- A class whose key attribute is nulled. -/
def nulledKey : History := [.setAttribute 0 "name" .null, .mergeNode ⟨.classType, "A"⟩ Dict.empty]

/-- **One write is enough to lose a key**: no scan counts the node any longer, and saved and opened
the store is another one. -/
theorem not_holdsKeys_nulledKey :
    (store nulledKey).state.graph.nodes = #[⟨.classType, "A", Dict.ofList [("name", .null)]⟩] ∧
      ¬(store nulledKey).state.graph.HoldsKeys ∧
      (∀ l, ((store nulledKey).scan l l.keyAttribute 0 none).map (·.length) = .ok 0) ∧
      ¬(store nulledKey).SurvivesReload "" := by
  have hnodes : (store nulledKey).state.graph.nodes =
      #[⟨.classType, "A", Dict.ofList [("name", .null)]⟩] := by
    decide +kernel
  have hlost : ¬(store nulledKey).state.graph.HoldsKeys := by
    rw [holdsKeys_iff]
    intro hall
    have hnull : overwrite? nulledKey 0 = some .null := by decide +kernel
    cases hall 0 _ .null (by rw [hnodes]; rfl) hnull
  have hscan (l : Label) : ((store nulledKey).scan l l.keyAttribute 0 none).map (·.length) =
      .ok 0 := by
    cases l <;> decide +kernel
  have hfits : (store nulledKey).state.Fits := by decide +kernel
  exact ⟨hnodes, hlost, hscan, fun hsurvives =>
    hlost ((survivesReload_iff hfits (by decide)).1 hsurvives)⟩

end History

end Store

end CodeGraph
