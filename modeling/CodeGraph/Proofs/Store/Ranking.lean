import CodeGraph.Proofs.Store.History
import CodeGraph.Proofs.Store.Nearest
import Mathlib.Data.List.Nodup

/-!
# The ranking of an index

All nodes that an index covers have one ranking (`VectorIndex.Ranks`), by their scores in
the IEEE total order (`Single.Below`) and, between equal scores, by their numbers. A
search answers how it begins.

* `Single.orderKey_lt_iff`: the order of the keys of scores is the total order.
* `pairwise_mergeSort_of_pairwise`: sorting keeps the order of equals.
* `VectorIndex.ranks_rank`, `VectorIndex.Ranks.unique`: the ranking exists and is
  determined by what is covered.
* `Store.nearest_exact`: what a search answers, and what has no part in it.
-/

namespace CodeGraph

/-! ## The total order of numbers -/

namespace Single

/-- The sign bit is set. -/
def isNegative (x : Single) : Bool := 2 ^ 31 ≤ x.bits.toNat

/-- The bits but for the sign: they count up from the zeros over the numbers and the
infinities to what is not a number. -/
def magnitude (x : Single) : Nat := x.bits.toNat % 2 ^ 31

/-- The IEEE total order. All that is negative lies below all that is not, and a greater magnitude
lies further from the zeros. -/
inductive Below (x y : Single) : Prop
  | signs (hx : x.isNegative) (hy : ¬y.isNegative)
  | positive (hx : ¬x.isNegative) (hy : ¬y.isNegative) (h : x.magnitude < y.magnitude)
  | negative (hx : x.isNegative) (hy : y.isNegative) (h : y.magnitude < x.magnitude)

theorem orderKey_eq (x : Single) :
    x.orderKey = if x.isNegative then -(x.magnitude : ℤ) - 1 else (x.magnitude : ℤ) := by
  have hbits : x.bits.toNat < 2 ^ 32 := x.bits.toNat_lt
  have hsign : (x.bits &&& 0x80000000 == 0) = !x.isNegative := by
    have hand : (x.bits &&& 0x80000000).toNat = (x.bits.toNat.testBit 31).toNat * 2 ^ 31 :=
      Nat.and_two_pow x.bits.toNat 31
    rw [Nat.testBit_eq_decide_div_mod_eq] at hand
    rw [Bool.eq_iff_iff, beq_iff_eq, ← UInt32.toNat_inj, hand]
    by_cases h : x.bits.toNat / 2 ^ 31 % 2 = 1 <;> simp [isNegative] <;> omega
  have hmagnitude : (x.bits &&& 0x7fffffff).toNat = x.magnitude :=
    Nat.and_two_pow_sub_one_eq_mod x.bits.toNat 31
  rw [orderKey, hsign, hmagnitude]
  cases hneg : x.isNegative with
  | true => rfl
  | false =>
    have hlt : x.bits.toNat < 2 ^ 31 := by simpa [isNegative] using hneg
    rw [magnitude, Nat.mod_eq_of_lt hlt]
    rfl

/-- **Keys are ordered as the numbers are.** -/
theorem orderKey_lt_iff {x y : Single} : x.orderKey < y.orderKey ↔ x.Below y := by
  rw [orderKey_eq, orderKey_eq]
  constructor
  · intro h
    by_cases hx : x.isNegative <;> by_cases hy : y.isNegative
    · exact .negative hx hy (by rw [if_pos hx, if_pos hy] at h; omega)
    · exact .signs hx hy
    · rw [if_neg hx, if_pos hy] at h
      omega
    · exact .positive hx hy (by rw [if_neg hx, if_neg hy] at h; omega)
  · rintro (⟨hx, hy⟩ | ⟨hx, hy, h⟩ | ⟨hx, hy, h⟩)
    · rw [if_pos hx, if_neg hy]
      omega
    · rw [if_neg hx, if_neg hy]
      omega
    · rw [if_pos hx, if_pos hy]
      omega

/-- Equal keys have equal bits. -/
theorem orderKey_inj {x y : Single} : x.orderKey = y.orderKey ↔ x = y := by
  refine ⟨fun h => ?_, congrArg orderKey⟩
  obtain ⟨b⟩ := x
  obtain ⟨c⟩ := y
  have hb := b.toNat_lt
  have hc := c.toNat_lt
  rw [orderKey_eq, orderKey_eq] at h
  simp only [isNegative, magnitude, decide_eq_true_eq] at h
  refine congrArg Single.mk (UInt32.toNat_inj.1 ?_)
  split at h <;> split at h <;> omega

end Single

/-! ## Sorting -/

/-- **Sorting keeps the order of equals.** -/
theorem pairwise_mergeSort_of_pairwise {α : Type} {le : α → α → Bool}
    (trans : ∀ a b c, le a b → le b c → le a c) (total : ∀ a b, le a b || le b a) {r : α → α → Prop}
    {l : List α} (h : l.Pairwise r) :
    (l.mergeSort le).Pairwise fun a b => le a b ∧ (le b a → r a b) := by
  rw [← List.mergeSort_zipIdx, List.pairwise_map]
  have hsorted :=
    List.pairwise_mergeSort (List.zipIdxLE_trans trans) (List.zipIdxLE_total total) l.zipIdx
  have hperm := List.mergeSort_perm l.zipIdx (List.zipIdxLE le)
  have hnodup : ((l.zipIdx.mergeSort (List.zipIdxLE le)).map (·.2)).Nodup := by
    rw [(hperm.map _).nodup_iff, List.zipIdx_map_snd]
    exact List.nodup_range'
  refine (hsorted.and (List.pairwise_map.1 hnodup)).imp_of_mem fun {p q} hp hq ⟨hle, hne⟩ => ?_
  have hp := List.mk_mem_zipIdx_iff_getElem?.1 (hperm.mem_iff.1 hp)
  have hq := List.mk_mem_zipIdx_iff_getElem?.1 (hperm.mem_iff.1 hq)
  rw [List.zipIdxLE] at hle
  split at hle
  case isFalse => cases hle
  case isTrue hfirst =>
    refine ⟨hfirst, fun hback => ?_⟩
    rw [if_pos hback, decide_eq_true_eq] at hle
    have hlt : p.2 < q.2 := Nat.lt_of_le_of_ne hle hne
    obtain ⟨hpl, hp⟩ := List.getElem?_eq_some_iff.1 hp
    obtain ⟨hql, hq⟩ := List.getElem?_eq_some_iff.1 hq
    rw [← hp, ← hq]
    exact List.pairwise_iff_getElem.1 h p.2 q.2 hpl hql hlt

/-! ## Rankings -/

/-- One hit goes before another: it has the greater score or, at equal scores, the
smaller number. -/
def ScoredNode.Outranks (a b : ScoredNode) : Prop :=
  b.score.Below a.score ∨ a.score = b.score ∧ a.id < b.id

/-- No two hits go before each other. -/
theorem ScoredNode.Outranks.asymm {a b : ScoredNode} (hab : a.Outranks b) : ¬b.Outranks a := by
  simp only [Outranks, ← Single.orderKey_lt_iff, ← Single.orderKey_inj] at hab ⊢
  grind

/-- Hits with ascending numbers are ranked by sorting them. -/
theorem pairwise_rank {hits : List ScoredNode} (h : hits.Pairwise fun a b => a.id < b.id) :
    (rank hits).Pairwise ScoredNode.Outranks := by
  rw [rank]
  refine (pairwise_mergeSort_of_pairwise (fun a b c hab hbc => ?_) (fun a b => ?_) h).imp
    fun {a b} hpair => ?_
  · rw [decide_eq_true_eq] at hab hbc ⊢
    exact hbc.trans hab
  · rw [Bool.or_eq_true, decide_eq_true_eq, decide_eq_true_eq]
    exact le_total _ _
  · obtain ⟨hle, htie⟩ := hpair
    rw [decide_eq_true_eq] at hle htie
    rcases hle.lt_or_eq with hlt | heq
    · exact .inl (Single.orderKey_lt_iff.1 hlt)
    · exact .inr ⟨Single.orderKey_inj.1 heq.symm, htie heq.ge⟩

namespace VectorIndex

variable {index : VectorIndex} {g g' : Graph} {query : List Single}

/-- An index covers a node by a vector: the node has the label of the index, and its attribute is a
vector of exactly the dimension of the index. -/
def Covers (index : VectorIndex) (n : Node) (v : List Single) : Prop :=
  n.label = index.label ∧ n.attributes.get? index.property = some (.vector v) ∧
    v.length = index.dimensions

/-- The index covers the node of a number by a vector. -/
def CoversAt (index : VectorIndex) (g : Graph) (id : NodeId) (v : List Single) : Prop :=
  ∃ n, g.nodes[id]? = some n ∧ index.Covers n v

theorem vector?_eq_some_iff {n : Node} {v : List Single} :
    index.vector? n = some v ↔ index.Covers n v := by
  rw [vector?, Covers]
  split
  case isFalse hlabel => simp [hlabel]
  case isTrue hlabel =>
    rw [Option.filter_eq_some_iff, Option.bind_eq_some_iff, beq_iff_eq, and_iff_right hlabel]
    refine and_congr_left fun _ => ⟨?_, fun h => ⟨_, h, rfl⟩⟩
    rintro ⟨value, hvalue, hvector⟩
    cases value <;> cases hvector
    exact hvalue

/-- A ranking of an index lists the nodes that the index covers with their scores, each hit before
those that it outranks. -/
structure Ranks (index : VectorIndex) (g : Graph) (query : List Single)
    (ranking : List ScoredNode) : Prop where
  mem : ∀ hit, hit ∈ ranking ↔ ∃ v, index.CoversAt g hit.id v ∧ hit.score = cosine query v
  ordered : ranking.Pairwise ScoredNode.Outranks

/-- **There is a ranking.** -/
theorem ranks_rank (index : VectorIndex) (g : Graph) (query : List Single) :
    index.Ranks g query (rank (index.scores g query)) where
  mem hit := by
    rw [mem_rank_scores, exists_comm]
    simp only [CoversAt, vector?_eq_some_iff, ← exists_and_right, and_assoc]
  ordered := by
    have hids : g.nodeList.Pairwise fun a b => a.1 < b.1 := by
      rw [← List.pairwise_map, Graph.map_fst_nodeList]
      exact List.pairwise_lt_range
    refine pairwise_rank (List.pairwise_filterMap.2 (hids.imp fun {a b} hlt => ?_))
    intro hit hhit hit' hhit'
    obtain ⟨v, -, rfl⟩ := Option.map_eq_some_iff.1 hhit
    obtain ⟨v', -, rfl⟩ := Option.map_eq_some_iff.1 hhit'
    exact hlt

variable {ranking ranking' : List ScoredNode}

theorem Ranks.nodup (h : index.Ranks g query ranking) : ranking.Nodup :=
  h.ordered.imp fun hab heq => (heq ▸ hab).asymm (heq ▸ hab)

/-- **There is only one ranking**: the order leaves no choice. -/
theorem Ranks.unique (h : index.Ranks g query ranking) (h' : index.Ranks g query ranking') :
    ranking = ranking' := by
  refine List.Perm.eq_of_pairwise
    (fun a b _ _ hab hba => absurd hba hab.asymm) h.ordered h'.ordered ?_
  exact (List.perm_ext_iff_of_nodup h.nodup h'.nodup).2 fun hit =>
    (h.mem hit).trans (h'.mem hit).symm

/-- Each covered node is ranked once: its score is that of its one vector. -/
theorem Ranks.nodup_ids (h : index.Ranks g query ranking) : (ranking.map (·.id)).Nodup := by
  refine List.pairwise_map.2 (h.nodup.imp_of_mem fun {a b} ha hb hne hid => hne ?_)
  obtain ⟨v, ⟨n, hn, -, hv, -⟩, hscore⟩ := (h.mem a).1 ha
  obtain ⟨v', ⟨n', hn', -, hv', -⟩, hscore'⟩ := (h.mem b).1 hb
  rw [hid] at hn
  obtain rfl : n = n' := Option.some.inj (hn.symm.trans hn')
  obtain rfl : v = v' := Value.vector.inj (Option.some.inj (hv.symm.trans hv'))
  obtain ⟨id, score⟩ := a
  obtain ⟨id', score'⟩ := b
  exact congrArg₂ ScoredNode.mk hid (hscore.trans hscore'.symm)

/-- The ranking depends on nothing but what is covered. -/
theorem Ranks.of_coversAt_iff (h : index.Ranks g query ranking)
    (hsame : ∀ id v, index.CoversAt g' id v ↔ index.CoversAt g id v) :
    index.Ranks g' query ranking :=
  ⟨fun hit => by simp only [h.mem hit, hsame], h.ordered⟩

/-! ## What is not covered -/

/-- A new node is covered by nothing but the vector it is given. -/
theorem covers_newNode {key : NodeKey} {given : Attributes} {v : List Single}
    (h : index.Covers (Graph.newNode key given) v) :
    key.label = index.label ∧ given.get? index.property = some (.vector v) ∧
    v.length = index.dimensions := by
  obtain ⟨hlabel, hvector, hlength⟩ := h
  refine ⟨hlabel, ?_, hlength⟩
  by_cases hkey : index.property = key.label.keyAttribute
  · -- the key attribute holds the key, a text
    have htext := Graph.holdsKey_newNode key given
    rw [Node.HoldsKey] at htext
    rw [hkey] at hvector
    cases htext.symm.trans hvector
  · have hfresh : (Graph.freshNode key).attributes.get? index.property = none :=
      Dict.get?_insert_of_ne (Ne.symm hkey) _ _
    have hgiven := Graph.get?_overwrite hkey given (Graph.freshNode key).attributes
    rw [hfresh, Option.or_none] at hgiven
    exact hgiven.symm.trans hvector

/-- A new node that is not covered changes nothing in what is. -/
theorem coversAt_mergeNode_iff {key : NodeKey} {given : Attributes} (hnew : g.find? key = none)
    (hnone : key.label = index.label → ∀ v, given.get? index.property = some (.vector v) →
      v.length ≠ index.dimensions) (id : NodeId) (v : List Single) :
    index.CoversAt (g.mergeNode key given).1 id v ↔ index.CoversAt g id v := by
  rw [Graph.mergeNode_of_find?_eq_none hnew]
  simp only [CoversAt, Array.getElem?_push]
  refine exists_congr fun n => and_congr_left fun hcovers => ?_
  split
  case isTrue hid =>
    rw [hid, Array.getElem?_eq_none (Nat.le_refl _)]
    refine iff_of_false (fun h => ?_) (fun h => by cases h)
    obtain ⟨hlabel, hvector, hlength⟩ := covers_newNode (Option.some.inj h ▸ hcovers)
    exact hnone hlabel v hvector hlength
  case isFalse => rfl

/-- A vector that is written onto a node that is not covered changes nothing in what is, if the node
has another label or the vector another length. -/
theorem coversAt_modify_iff {i : NodeId} (hnone : ∀ v, ¬index.CoversAt g i v) {w : List Single}
    (hw : ∀ n, g.nodes[i]? = some n → n.label = index.label → w.length ≠ index.dimensions)
    (id : NodeId) (v : List Single) :
    index.CoversAt { g with nodes := g.nodes.modify i fun n =>
      { n with attributes := n.attributes.insert index.property (.vector w) } } id v ↔
      index.CoversAt g id v := by
  by_cases hid : i = id
  · subst hid
    refine iff_of_false ?_ (hnone v)
    rintro ⟨n, hn, hlabel, hvector, hlength⟩
    rw [Array.getElem?_modify, if_pos rfl] at hn
    obtain ⟨m, hm, rfl⟩ := Option.map_eq_some_iff.1 hn
    rw [Dict.get?_insert_self] at hvector
    cases hvector
    exact hw m hm hlabel hlength
  · simp only [CoversAt, Array.getElem?_modify, if_neg hid]

end VectorIndex

namespace Store

variable {s s' : Store} {name : String} {index : VectorIndex} {query : List Single}

/-- A search answers alike where the same nodes are covered by the same vectors. -/
theorem nearest_congr (hs : s.connected) (hs' : s'.connected)
    (hindex : s.state.indexes.get? name = some index)
    (hindex' : s'.state.indexes.get? name = some index) (hquery : query.length = index.dimensions)
    (hsame : ∀ id v, index.CoversAt s'.state.graph id v ↔ index.CoversAt s.state.graph id v)
    (limit : Nat) :
    s'.nearest name query limit = s.nearest name query limit := by
  have hranks := (index.ranks_rank s.state.graph query).of_coversAt_iff hsame
  rw [nearest_eq hs' hindex' hquery, nearest_eq hs hindex hquery,
    (index.ranks_rank s'.state.graph query).unique hranks]

/-- **A search is an exact and stable choice of the best.** Whatever the limit, it answers the
beginning of one list: all nodes of the label of the index whose attribute is a vector of its
dimension, by descending score in the IEEE total order and by ascending number at equal scores.

* Each node is in it once, a smaller limit answers a prefix of what a larger one does, and no node
  that is left out outranks one that is answered.
* What the index does not cover has no part in it: the answers of two stores are the same if the
  index covers the same nodes by the same vectors in both. So it is with a new node of another label
  or with a vector of another length, and with a vector written onto a node that was not covered if
  the node has another label or the vector another length. -/
theorem nearest_exact (hs : s.connected) (hindex : s.state.indexes.get? name = some index)
    (hquery : query.length = index.dimensions) :
    ∃ ranking : List ScoredNode,
      (∀ limit, s.nearest name query limit = .ok (ranking.take limit)) ∧
      (∀ hit, hit ∈ ranking ↔
        ∃ v, index.CoversAt s.state.graph hit.id v ∧ hit.score = cosine query v) ∧
      ranking.Pairwise ScoredNode.Outranks ∧
      (ranking.map (·.id)).Nodup ∧
      (∀ limit more, limit ≤ more → ranking.take limit <+: ranking.take more) ∧
      (∀ limit, ∀ found ∈ ranking.take limit, ∀ hit ∈ ranking, hit ∉ ranking.take limit →
        found.Outranks hit) ∧
      (∀ s' : Store, s'.connected → s'.state.indexes.get? name = some index →
        (∀ id v, index.CoversAt s'.state.graph id v ↔ index.CoversAt s.state.graph id v) →
        ∀ limit, s'.nearest name query limit = s.nearest name query limit) ∧
      (∀ key given id s', s.mergeNode key given = .ok (id, s') → s.state.graph.find? key = none →
        (key.label = index.label → ∀ v, given.get? index.property = some (.vector v) →
          v.length ≠ index.dimensions) →
        ∀ limit, s'.nearest name query limit = s.nearest name query limit) ∧
      (∀ id i v s', s.setAttribute id index.property (.vector v) = .ok ((), s') →
        s.state.graph.position? id = some i → (∀ w, ¬index.CoversAt s.state.graph i w) →
        (∀ n, s.state.graph.nodes[i]? = some n → n.label = index.label →
          v.length ≠ index.dimensions) →
        ∀ limit, s'.nearest name query limit = s.nearest name query limit) := by
  have hranks := index.ranks_rank s.state.graph query
  refine ⟨_, nearest_eq hs hindex hquery, hranks.mem, hranks.ordered, hranks.nodup_ids,
    fun limit more hle => ?_, fun limit found hfound hit hhit hout => ?_,
    fun s' hs' hindex' hsame => nearest_congr hs hs' hindex hindex' hquery hsame,
    fun key given id s' hmerge hnew hnone => ?_, fun id i v s' hset hi hnone hv => ?_⟩
  · exact List.take_prefix_take_left hle
  · -- what is left out stands behind what is taken
    have hordered := hranks.ordered
    rw [← List.take_append_drop limit (rank _)] at hhit hordered
    have hdropped := (List.mem_append.1 hhit).resolve_left hout
    exact (List.pairwise_append.1 hordered).2.2 found hfound hit hdropped
  · have hs' := connected_of_write hmerge
    rw [mergeNode_eq_ok hmerge] at hs' ⊢
    exact nearest_congr hs hs' hindex hindex hquery (VectorIndex.coversAt_mergeNode_iff hnew hnone)
  · have hs' := connected_of_write hset
    obtain ⟨j, hj, rfl⟩ := setAttribute_eq_ok hset
    obtain rfl : i = j := Option.some.inj (hi.symm.trans hj)
    exact nearest_congr hs hs' hindex hindex hquery (VectorIndex.coversAt_modify_iff hnone hv)

/-- Three methods and their type, all with vectors. An index covers the first and the last method:
the vector of the second has another length, and the type has another label. -/
def tiedMethods : History :=
  [.setAttribute 3 "embedding" (.vector [⟨0xffc00001⟩]),
    .setAttribute 2 "embedding" (.vector [⟨0x7fc00000⟩, ⟨0x7fc00000⟩]),
    .setAttribute 1 "embedding" (.vector [⟨0x7fc00001⟩]),
    .setAttribute 0 "embedding" (.vector [⟨0x7fc00001⟩]), .mergeNode ⟨.method, "A.h()"⟩ Dict.empty,
    .mergeNode ⟨.method, "A.g()"⟩ Dict.empty, .mergeNode ⟨.method, "A.f()"⟩ Dict.empty,
    .mergeNode ⟨.classType, "A"⟩ Dict.empty,
    .createIndex ⟨"methodEmbeddings", .method, "embedding", 1⟩]

/-- A query that is not a number is equally near to all, so the numbers of the methods decide. -/
theorem nearest_exact_tiedMethods :
    let s := History.store tiedMethods
    let index : VectorIndex := ⟨"methodEmbeddings", .method, "embedding", 1⟩
    s.connected ∧ s.state.indexes.get? "methodEmbeddings" = some index ∧
      [(⟨0x7fc00000⟩ : Single)].length = index.dimensions ∧
      (∃ ranking : List ScoredNode,
        (∀ limit, s.nearest "methodEmbeddings" [⟨0x7fc00000⟩] limit = .ok (ranking.take limit)) ∧
        ranking.Pairwise ScoredNode.Outranks ∧
        (∀ hit, hit ∈ ranking ↔
          ∃ v, index.CoversAt s.state.graph hit.id v ∧ hit.score = cosine [⟨0x7fc00000⟩] v)) ∧
      ∀ limit, s.nearest "methodEmbeddings" [⟨0x7fc00000⟩] limit =
        .ok ([⟨1, ⟨0x7fc00000⟩⟩, ⟨3, ⟨0x7fc00000⟩⟩].take limit) := by
  intro s index
  have hs : s.connected := History.connected tiedMethods
  have hindex : s.state.indexes.get? "methodEmbeddings" = some index := by decide +kernel
  have hquery : [(⟨0x7fc00000⟩ : Single)].length = index.dimensions := rfl
  have hscores : index.scores s.state.graph [⟨0x7fc00000⟩] =
      [⟨1, ⟨0x7fc00000⟩⟩, ⟨3, ⟨0x7fc00000⟩⟩] := by
    decide +kernel
  obtain ⟨ranking, hnearest, hmem, hordered, -⟩ := nearest_exact hs hindex hquery
  refine ⟨hs, hindex, hquery, ⟨ranking, hnearest, hordered, hmem⟩, fun limit => ?_⟩
  rw [nearest_eq hs hindex hquery, hscores, rank, List.mergeSort_of_pairwise (by decide)]

end Store

end CodeGraph
