import CodeGraph.Proofs.Data.Dict
import CodeGraph.Proofs.Snapshot.Layouts
import CodeGraph.Snapshot.Format

/-!
# Laws of the snapshot format

Every layout of the format is lawful (`lawful_layout`) for what a machine of 64-bit words can hold:
texts and collections with a length below `2 ^ 64`, and positions and dimensions below it (`Fits`).
The weight of a node counts its attributes, so that all attributes of a snapshot are no more than
the bytes it is read from.
-/

namespace CodeGraph.Snapshot

/-! ## What fits -/

def ValueFits : Value → Prop
  | .text s => TextFits s
  | .vector xs => xs.length < 2 ^ 64
  | _ => True

structure AttributesFit (a : Attributes) : Prop where
  size : a.size < 2 ^ 64
  entries : ∀ e ∈ a.toList, TextFits e.1 ∧ ValueFits e.2

structure NodeFits (n : Node) : Prop where
  key : TextFits n.key
  attributes : AttributesFit n.attributes

structure EdgeFits (e : Edge) : Prop where
  start : e.start < 2 ^ 64
  target : e.target < 2 ^ 64
  attributes : AttributesFit e.attributes

structure IndexFits (i : VectorIndex) : Prop where
  name : TextFits i.name
  property : TextFits i.property
  dimensions : i.dimensions < 2 ^ 64

/-- Every length and every number of the snapshot is below `2 ^ 64`. -/
structure Fits (s : Snapshot) : Prop where
  version : TextFits s.version
  savedAt : TextFits s.savedAt
  nodes : s.nodes.length < 2 ^ 64 ∧ ∀ n ∈ s.nodes, NodeFits n
  edges : s.edges.length < 2 ^ 64 ∧ ∀ e ∈ s.edges, EdgeFits e
  indexes : s.indexes.length < 2 ^ 64 ∧ ∀ i ∈ s.indexes, IndexFits i

instance : (v : Value) → Decidable (ValueFits v)
  | .text s => inferInstanceAs (Decidable (TextFits s))
  | .vector xs => inferInstanceAs (Decidable (xs.length < 2 ^ 64))
  | .null | .bool _ | .int _ | .float _ => inferInstanceAs (Decidable True)

instance (a : Attributes) : Decidable (AttributesFit a) :=
  decidable_of_iff (a.size < 2 ^ 64 ∧ ∀ e ∈ a.toList, TextFits e.1 ∧ ValueFits e.2)
    ⟨fun h => ⟨h.1, h.2⟩, fun h => ⟨h.size, h.entries⟩⟩

instance (n : Node) : Decidable (NodeFits n) :=
  decidable_of_iff (TextFits n.key ∧ AttributesFit n.attributes)
    ⟨fun h => ⟨h.1, h.2⟩, fun h => ⟨h.key, h.attributes⟩⟩

instance (e : Edge) : Decidable (EdgeFits e) :=
  decidable_of_iff (e.start < 2 ^ 64 ∧ e.target < 2 ^ 64 ∧ AttributesFit e.attributes)
    ⟨fun h => ⟨h.1, h.2.1, h.2.2⟩, fun h => ⟨h.start, h.target, h.attributes⟩⟩

instance (i : VectorIndex) : Decidable (IndexFits i) :=
  decidable_of_iff (TextFits i.name ∧ TextFits i.property ∧ i.dimensions < 2 ^ 64)
    ⟨fun h => ⟨h.1, h.2.1, h.2.2⟩, fun h => ⟨h.name, h.property, h.dimensions⟩⟩

instance (s : Snapshot) : Decidable s.Fits :=
  decidable_of_iff (TextFits s.version ∧ TextFits s.savedAt ∧
      (s.nodes.length < 2 ^ 64 ∧ ∀ n ∈ s.nodes, NodeFits n) ∧
      (s.edges.length < 2 ^ 64 ∧ ∀ e ∈ s.edges, EdgeFits e) ∧
      (s.indexes.length < 2 ^ 64 ∧ ∀ i ∈ s.indexes, IndexFits i))
    ⟨fun h => ⟨h.1, h.2.1, h.2.2.1, h.2.2.2.1, h.2.2.2.2⟩,
      fun h => ⟨h.version, h.savedAt, h.nodes, h.edges, h.indexes⟩⟩

/-! ## Values -/

theorem lawful_int64 : int64.Lawful (fun _ => True) fun _ => 8 := by
  refine Layout.lawful_word.via (fun i _ => ⟨i.toUInt64.toNat_lt, ?_⟩)
    fun _ _ _ _ => ⟨trivial, Nat.le_refl 8⟩
  rw [UInt64.ofNat_toNat, Int64.toInt64_toUInt64]

theorem lawful_double : double.Lawful (fun _ => True) fun _ => 8 := by
  refine Layout.lawful_word.via (fun x _ => ⟨x.bits.toNat_lt, ?_⟩)
    fun _ _ _ _ => ⟨trivial, Nat.le_refl 8⟩
  rw [UInt64.ofNat_toNat]

theorem lawful_single : single.Lawful (fun _ => True) fun _ => 4 := by
  refine Layout.lawful_tag.via (fun x _ => ⟨x.bits.toNat_lt, ?_⟩)
    fun _ _ _ _ => ⟨trivial, Nat.le_refl 4⟩
  rw [UInt32.ofNat_toNat]

theorem read_map {α β : Type} {L : Layout α} {fits : α → Prop} {weight : α → Nat}
    (h : L.Lawful fits weight) (f : α → β) {a : α} (ha : fits a) (rest : Bytes) :
    (do return (← L.read (L.write a ++ rest)).map f id : Except Fault (β × Bytes)) =
      .ok (f a, rest) := by
  rw [h.read_write ha rest]
  rfl

theorem read_value {v : Value} (hv : ValueFits v) (rest : Bytes) :
    value.read (value.write v ++ rest) = .ok (v, rest) := by
  have htag : ∀ t < 2 ^ 32, ∀ bs, Layout.tag.read (Layout.tag.write t ++ bs) = .ok (t, bs) :=
    fun t ht bs => Layout.lawful_tag.read_write ht bs
  cases v with
  | null => simp only [value, htag 0 (by decide), ok_bind]; rfl
  | bool b =>
    simp only [value, List.append_assoc, htag 1 (by decide), ok_bind]
    exact read_map Layout.lawful_bool Value.bool trivial rest
  | int i =>
    simp only [value, List.append_assoc, htag 2 (by decide), ok_bind]
    exact read_map lawful_int64 Value.int trivial rest
  | float x =>
    simp only [value, List.append_assoc, htag 3 (by decide), ok_bind]
    exact read_map lawful_double Value.float trivial rest
  | text s =>
    simp only [value, List.append_assoc, htag 4 (by decide), ok_bind]
    exact read_map Layout.lawful_text Value.text hv rest
  | vector xs =>
    simp only [value, List.append_assoc, htag 5 (by decide), ok_bind]
    exact read_map lawful_single.list Value.vector ⟨hv, fun _ _ => trivial⟩ rest

theorem steady_value : Steady value.read := by
  refine Steady.bind Layout.lawful_tag.steady fun t => ?_
  obtain _ | _ | _ | _ | _ | _ | t := t
  · exact Steady.ofExcept (.ok Value.null)
  · exact Layout.lawful_bool.steady.map Value.bool
  · exact lawful_int64.steady.map Value.int
  · exact lawful_double.steady.map Value.float
  · exact Layout.lawful_text.steady.map Value.text
  · exact lawful_single.list.steady.map Value.vector
  · exact Steady.ofExcept (.error (.noChoice (t + 6) 6))

/-- What is read and then wrapped fits, and is not longer than the bytes. -/
theorem read_map_eq_ok {α β : Type} {L : Layout α} {fits : α → Prop} {weight : α → Nat}
    (h : L.Lawful fits weight) {f : α → β} {bs rest : Bytes} {b : β}
    (hread : (do return (← L.read bs).map f id : Except Fault (β × Bytes)) = .ok (b, rest)) :
    ∃ a, b = f a ∧ fits a ∧ rest.length ≤ bs.length := by
  obtain ⟨⟨a, left⟩, ha, hread⟩ := bind_eq_ok.1 hread
  cases hread
  exact ⟨a, rfl, h.fits_of_read ha, Nat.le_of_add_left_le (h.weight_le ha)⟩

theorem read_value_eq_ok {bs rest : Bytes} {v : Value} (h : value.read bs = .ok (v, rest)) :
    ValueFits v ∧ 4 + rest.length ≤ bs.length := by
  obtain ⟨⟨t, left⟩, ht, h⟩ := bind_eq_ok.1 h
  have htag := Layout.lawful_tag.weight_le ht
  suffices hv : ValueFits v ∧ rest.length ≤ left.length from ⟨hv.1, by omega⟩
  obtain _ | _ | _ | _ | _ | _ | t := t
  · cases h
    exact ⟨trivial, Nat.le_refl _⟩
  · obtain ⟨b, rfl, -, hle⟩ := read_map_eq_ok Layout.lawful_bool h
    exact ⟨trivial, hle⟩
  · obtain ⟨i, rfl, -, hle⟩ := read_map_eq_ok lawful_int64 h
    exact ⟨trivial, hle⟩
  · obtain ⟨x, rfl, -, hle⟩ := read_map_eq_ok lawful_double h
    exact ⟨trivial, hle⟩
  · obtain ⟨s, rfl, hs, hle⟩ := read_map_eq_ok Layout.lawful_text h
    exact ⟨hs, hle⟩
  · obtain ⟨xs, rfl, hxs, hle⟩ := read_map_eq_ok lawful_single.list h
    exact ⟨hxs.1, hle⟩
  · cases h

theorem lawful_value : value.Lawful ValueFits fun _ => 4 where
  read_write := read_value
  steady := steady_value
  fits_of_read h := (read_value_eq_ok h).1
  weight_le h := (read_value_eq_ok h).2

/-! ## Nodes, relationships and indexes -/

theorem length_le_sum_map {α : Type} {weight : α → Nat} (h : ∀ a, 1 ≤ weight a) (as : List α) :
    as.length ≤ (as.map weight).sum := by
  induction as with
  | nil => exact Nat.le_refl 0
  | cons a as ih =>
    have := h a
    rw [List.map_cons, List.sum_cons, List.length_cons]
    omega

theorem lawful_attributes : attributes.Lawful AttributesFit Dict.size := by
  refine (Layout.lawful_text.pair lawful_value).list.via (fun a ha => ?_) fun l a hl h => ?_
  · exact ⟨⟨ha.size, ha.entries⟩, congrArg Except.ok a.ofList_toList⟩
  · cases h
    have hsize := Dict.size_ofList_le l
    refine ⟨⟨Nat.lt_of_le_of_lt hsize hl.1, fun e he => hl.2 e (Dict.mem_of_mem_ofList he)⟩, ?_⟩
    exact Nat.le_trans hsize (length_le_sum_map (fun _ => by omega) l)

theorem lawful_label : label.Lawful (fun _ => True) fun _ => 4 :=
  Layout.lawful_choice Label.mem_all (by decide)

theorem lawful_relation : relation.Lawful (fun _ => True) fun _ => 4 :=
  Layout.lawful_choice Relation.mem_all (by decide)

theorem lawful_node : node.Lawful NodeFits fun n => 1 + n.attributes.size := by
  refine (lawful_label.pair (Layout.lawful_text.pair lawful_attributes)).via
    (fun n hn => ⟨⟨trivial, hn.key, hn.attributes⟩, rfl⟩) fun (l, k, a) n hp h => ?_
  cases h
  exact ⟨⟨hp.2.1, hp.2.2⟩, by simp only; omega⟩

theorem lawful_edge : edge.Lawful EdgeFits fun _ => 0 := by
  refine (Layout.lawful_word.pair
    (Layout.lawful_word.pair (lawful_relation.pair lawful_attributes))).via (fun e he =>
      ⟨⟨he.start, he.target, trivial, he.attributes⟩, rfl⟩) fun p e hp h => ?_
  cases h
  exact ⟨⟨hp.1, hp.2.1, hp.2.2.2⟩, Nat.zero_le _⟩

theorem lawful_index : index.Lawful IndexFits fun _ => 0 := by
  refine (Layout.lawful_text.pair
    (lawful_label.pair (Layout.lawful_text.pair Layout.lawful_word))).via (fun i hi =>
      ⟨⟨hi.name, trivial, hi.property, hi.dimensions⟩, rfl⟩) fun p i hp h => ?_
  cases h
  exact ⟨⟨hp.1, hp.2.2.1, hp.2.2.2⟩, Nat.zero_le _⟩

/-- **The snapshot format is lawful**: what fits is read back, no cut of it is read, and the nodes
and their attributes are no more than the bytes. -/
theorem lawful_layout :
    layout.Lawful Fits fun s => (s.nodes.map fun n => 1 + n.attributes.size).sum := by
  refine (Layout.lawful_text.pair (Layout.lawful_text.pair (lawful_node.list.pair
    (lawful_edge.list.pair lawful_index.list)))).via
    (fun s hs => ⟨⟨hs.version, hs.savedAt, hs.nodes, hs.edges, hs.indexes⟩, rfl⟩)
    fun (v, t, ns, es, is) s hp h => ?_
  cases h
  exact ⟨⟨hp.1, hp.2.1, hp.2.2.1, hp.2.2.2.1, hp.2.2.2.2⟩, by simp only; omega⟩

/-- What is decoded is the state of the snapshot that was read. -/
theorem decode_eq_ok {bytes : Bytes} {state : StoreState} (h : decode bytes = .ok state) :
    ∃ s rest, layout.read bytes = .ok (s, rest) ∧ state = s.toState := by
  unfold decode at h
  cases hread : layout.read bytes with
  | error fault => rw [hread] at h; cases h
  | ok p =>
    rw [hread] at h
    cases h
    exact ⟨p.1, p.2, rfl, rfl⟩

end CodeGraph.Snapshot
