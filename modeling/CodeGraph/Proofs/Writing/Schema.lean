import CodeGraph.Proofs.Writing.Upserts

/-!
# Calls of the writer and the schema

A `WriterCall` records one entry, a `WriterEvent` is such a call or the loss or return of the
store's connection. Whatever happens, in whatever order and however many calls fail midway:

* `keepsTo_run`: relationships join nodes of the labels that their kind `joins`, as long as the
  graph has room for its nodes.
* `getElem?_nodes_run`: a node stays exactly as it is until a call declares it. Calls that only
  refer to it, the ones that write it without attributes among them, change nothing of it.

Both come from what one upsert does to one graph (`KeepsTo.graph?`, `getElem?_nodes_graph?`).
-/

namespace CodeGraph

/-! ## The labels of ends -/

/-- Whether the schema has relationships of a kind from nodes of a label to nodes of another. -/
def Relation.joins : Relation → Label → Label → Bool
  | .hasDir, .directory, .directory
  | .hasFile, .directory, .file
  | .hasClass, .file, .classType
  | .hasClass, .classType, .classType
  | .hasImport, .file, .importName
  | .inPackage, .file, .package
  | .hasMethod, .classType, .method
  | .hasConstructor, .classType, .method
  | .hasField, .classType, .field
  | .hasType, .field, .classType
  | .extends, .classType, .classType
  | .implements, .classType, .classType
  | .callsMethod, .method, .method
  | .usesClass, .method, .classType => true
  | _, _, _ => false

/-- The labels of a relationship are ones that its kind joins. -/
def Link.InSchema (l : Link) : Prop := l.relation.joins l.start.label l.target.label

/-- A relationship of an upsert has a property. -/
def Upsert.LinksBy (P : Link → Prop) (u : Upsert) : Prop :=
  ∀ start target relation, u = .edge start target relation → P ⟨start, target, relation⟩

/-- An upsert gives attributes at most to the node of a key. -/
def Upsert.GivesOnly (declared : Option NodeKey) (u : Upsert) : Prop :=
  ∀ key given, u = .node key given → declared = some key ∨ given = Dict.empty

namespace Upsert

variable {P : Link → Prop} {declared : Option NodeKey} {key start target : NodeKey}
  {given : Attributes} {relation : Relation}

@[simp] theorem linksBy_node : (node key given).LinksBy P := fun _ _ _ h => by cases h

@[simp] theorem linksBy_edge : (edge start target relation).LinksBy P ↔
    P ⟨start, target, relation⟩ := by
  refine ⟨fun h => h _ _ _ rfl, fun h _ _ _ heq => ?_⟩
  cases heq
  exact h

@[simp] theorem givesOnly_node :
    (node key given).GivesOnly declared ↔ declared = some key ∨ given = Dict.empty := by
  refine ⟨fun h => h _ _ rfl, fun h _ _ heq => ?_⟩
  cases heq
  exact h

@[simp] theorem givesOnly_edge : (edge start target relation).GivesOnly declared :=
  fun _ _ h => by cases h

end Upsert

namespace Graph

/-- A well-formed graph whose relationships have a property, at least as long as it has room. -/
structure KeepsTo (P : Link → Prop) (g : Graph) : Prop where
  wellFormed : g.WellFormed
  links : g.nodes.size < 0xffffffff → ∀ l, some l ∈ g.links → P l

variable {P : Link → Prop} {g g' : Graph} {u : Upsert} {i : NodeId} {n : Node}

theorem keepsTo_empty (P : Link → Prop) : empty.KeepsTo P :=
  ⟨wellFormed_empty, fun _ _ hl => by cases hl⟩

/-- One upsert adds at most its own relationship. -/
theorem KeepsTo.graph? (h : g.KeepsTo P) (hu : u.LinksBy P) (hg : u.graph? g = some g') :
    g'.KeepsTo P where
  wellFormed := h.wellFormed.graph? hg
  links hroom l hl := by
    have hroom' : g.nodes.size < 0xffffffff := Nat.lt_of_le_of_lt (extends_graph? hg).size_le hroom
    rcases (mem_links_graph? h.wellFormed hg hroom').1 hl with hl | hl
    · exact h.links hroom' l hl
    · exact hu _ _ _ hl

/-- In a graph with room a relationship has its ends at the places that it names. -/
theorem KeepsTo.exists_nodes (h : g.KeepsTo P) (hroom : g.nodes.size < 0xffffffff) {e : Edge}
    (he : e ∈ g.edges) :
    ∃ a b : Node, g.nodes[e.start]? = some a ∧ g.nodes[e.target]? = some b ∧
      P ⟨a.nodeKey, b.nodeKey, e.relation⟩ := by
  have hends : e.ends ∈ g.ends := List.mem_map_of_mem he.val
  obtain ⟨l, hl⟩ := h.wellFormed.isSome_link? hends
  obtain ⟨hstart, htarget, hrelation⟩ := link?_eq_some_iff.1 hl
  rw [getElem?_keys] at hstart htarget
  obtain ⟨a, ha, hkey⟩ := Option.map_eq_some_iff.1 hstart
  obtain ⟨b, hb, hkey'⟩ := Option.map_eq_some_iff.1 htarget
  have hP : P l := h.links hroom l (hl ▸ List.mem_map_of_mem hends)
  refine ⟨a, b, ha, hb, ?_⟩
  obtain ⟨start, target, relation⟩ := l
  cases hkey
  cases hkey'
  cases hrelation
  exact hP

/-- An upsert changes no node but the one to which it gives attributes. -/
theorem getElem?_nodes_graph? (hn : g.nodes[i]? = some n)
    (hu : ∀ given, u = .node n.nodeKey given → given = Dict.empty) (hg : u.graph? g = some g') :
    g'.nodes[i]? = some n := by
  cases u with
  | edge start target relation => rw [nodes_graph?_edge hg, hn]
  | node key given =>
    cases hg
    cases hfind : g.find? key with
    | none =>
      have hlt : i < g.nodes.size := (Array.getElem?_eq_some_iff.1 hn).1
      rw [mergeNode_of_find?_eq_none hfind]
      rw [Array.getElem?_push, if_neg (Nat.ne_of_lt hlt), hn]
    | some id =>
      rw [mergeNode_of_find?_eq_some hfind]
      rw [Array.getElem?_modify]
      split
      case isFalse => exact hn
      case isTrue hid =>
        -- the node that is looked up has the key of the upsert, which then gives it nothing
        subst hid
        obtain ⟨m, hm, rfl⟩ := find?_eq_some hfind
        cases hm.symm.trans hn
        rw [hu given rfl, hn]
        rfl

end Graph

/-! ## Entries -/

/-- What every upsert of an entry keeps, recording the entry keeps. -/
theorem Entry.record_induction {Q : Graph → Prop} {entry : Entry}
    (h : ∀ u ∈ entry, ∀ g g', u.graph? g = some g' → Q g → Q g') {l : Ledger}
    (hl : Q l.store.state.graph) : Q (entry.record l).2.store.state.graph := by
  induction entry generalizing l with
  | nil => exact hl
  | cons u rest ih =>
    obtain ⟨⟨state, connected⟩, stats⟩ := l
    rw [Entry.record]
    cases connected with
    | false =>
      have hnone : u.apply? ⟨state, false⟩ = none := by cases u <;> rfl
      rw [hnone]
      exact hl
    | true =>
      rw [show (⟨state, true⟩ : Store) = .ofState state from rfl, Upsert.apply?_ofState]
      cases hu : u.graph? state.graph with
      | none => exact hl
      | some g =>
        exact ih (fun v hv => h v (List.mem_cons_of_mem _ hv)) (h u List.mem_cons_self _ _ hu hl)

theorem Graph.KeepsTo.record {P : Link → Prop} {entry : Entry} {l : Ledger}
    (h : l.store.state.graph.KeepsTo P) (hentry : ∀ u ∈ entry, u.LinksBy P) :
    (entry.record l).2.store.state.graph.KeepsTo P :=
  Entry.record_induction (fun u hu _ _ hg hkeeps => hkeeps.graph? (hentry u hu) hg) h

/-! ## Calls -/

/-- A call of the writer with its arguments. -/
inductive WriterCall
  | directory (path : String)
  | subdirectory (parent child : String)
  | file (path : String)
  | fileIn (parent path : String)
  | packageOf (path package : String)
  | importOf (path name : String)
  | classType (qualified kind : String)
  | classStub (qualified : String)
  | classIn (path qualified : String)
  | nestedClass (outer inner : String)
  | classExtends (qualified parent : String)
  | classImplements (qualified interface : String)
  | method (signature : String) (detail : MethodDetail)
  | methodStub (signature : String)
  | methodOf (qualified signature : String)
  | constructorOf (qualified signature : String)
  | fieldOf (qualified : String) (field : FieldDetail)
  | typedFieldOf (qualified : String) (field : FieldDetail) (fieldType : String)
  | call (caller callee : String)
  | use (signature qualified : String)
deriving DecidableEq

namespace WriterCall

/-- The entry that a call records. -/
def entry : WriterCall → Entry
  | directory path => Entry.directory path
  | subdirectory parent child => Entry.subdirectory parent child
  | file path => Entry.file path
  | fileIn parent path => Entry.fileIn parent path
  | packageOf path package => Entry.packageOf path package
  | importOf path name => Entry.importOf path name
  | classType qualified kind => Entry.classType qualified kind
  | classStub qualified => Entry.classStub qualified
  | classIn path qualified => Entry.classIn path qualified
  | nestedClass outer inner => Entry.nestedClass outer inner
  | classExtends qualified parent => Entry.classExtends qualified parent
  | classImplements qualified interface => Entry.classImplements qualified interface
  | method signature detail => Entry.method signature detail
  | methodStub signature => Entry.methodStub signature
  | methodOf qualified signature => Entry.methodOf qualified signature
  | constructorOf qualified signature => Entry.constructorOf qualified signature
  | fieldOf qualified field => Entry.fieldOf qualified field
  | typedFieldOf qualified field fieldType => Entry.typedFieldOf qualified field fieldType
  | call caller callee => Entry.call caller callee
  | use signature qualified => Entry.use signature qualified

/-- The key of the node that a call declares, giving it attributes. -/
def declared? : WriterCall → Option NodeKey
  | file path | fileIn _ path => some ⟨.file, path⟩
  | classType qualified _ => some ⟨.classType, qualified⟩
  | method signature _ => some ⟨.method, signature⟩
  | fieldOf qualified field | typedFieldOf qualified field _ => some (.ofField qualified field.name)
  | _ => none

/-- Every relationship that a call records is one of the schema. -/
theorem linksBy_inSchema (c : WriterCall) : ∀ u ∈ c.entry, u.LinksBy Link.InSchema := by
  cases c
  all_goals
    simp [entry, Entry.directory, Entry.subdirectory, Entry.file, Entry.fileIn, Entry.packageOf,
      Entry.importOf, Entry.classType, Entry.classStub, Entry.classIn, Entry.nestedClass,
      Entry.classExtends, Entry.classImplements, Entry.method, Entry.methodStub, Entry.methodOf,
      Entry.constructorOf, Entry.fieldOf, Entry.typedFieldOf, Entry.call, Entry.use, Entry.stub,
      NodeKey.ofField, Link.InSchema, Relation.joins]

/-- A call gives attributes only to the node that it declares. -/
theorem givesOnly_declared? (c : WriterCall) : ∀ u ∈ c.entry, u.GivesOnly c.declared? := by
  cases c
  all_goals
    simp [entry, declared?, Entry.directory, Entry.subdirectory, Entry.file, Entry.fileIn,
      Entry.packageOf, Entry.importOf, Entry.classType, Entry.classStub, Entry.classIn,
      Entry.nestedClass, Entry.classExtends, Entry.classImplements, Entry.method, Entry.methodStub,
      Entry.methodOf, Entry.constructorOf, Entry.fieldOf, Entry.typedFieldOf, Entry.call, Entry.use,
      Entry.stub]

end WriterCall

/-! ## Runs -/

/-- What happens to a writer: calls, and the loss and return of the store's connection. -/
inductive WriterEvent
  | write (c : WriterCall)
  | connect
  | disconnect
deriving DecidableEq

namespace WriterEvent

/-- The ledger that an event leaves. -/
def happen (l : Ledger) : WriterEvent → Ledger
  | write c => (c.entry.record l).2
  | connect => { l with store := l.store.connect }
  | disconnect => { l with store := l.store.disconnect }

/-- The ledger that events in order leave. -/
def run (events : List WriterEvent) (l : Ledger) : Ledger := events.foldl happen l

/-- What no event breaks, no run breaks. -/
theorem run_induction {Q : Ledger → Prop} {events : List WriterEvent}
    (h : ∀ e ∈ events, ∀ l, Q l → Q (e.happen l)) {l : Ledger} (hl : Q l) : Q (run events l) := by
  induction events generalizing l with
  | nil => exact hl
  | cons e rest ih =>
    exact ih (fun e' he' => h e' (List.mem_cons_of_mem _ he')) (h e List.mem_cons_self l hl)

/-- **Every run of the writer keeps to the schema.** -/
theorem keepsTo_run (events : List WriterEvent) {l : Ledger}
    (h : l.store.state.graph.KeepsTo Link.InSchema) :
    (run events l).store.state.graph.KeepsTo Link.InSchema := by
  refine run_induction (Q := fun l => l.store.state.graph.KeepsTo Link.InSchema)
    (fun e _ l hl => ?_) h
  cases e with
  | write c => exact hl.record c.linksBy_inSchema
  | connect => exact hl
  | disconnect => exact hl

/-- **A node stays as it is until a call declares it.** -/
theorem getElem?_nodes_run {events : List WriterEvent} {l : Ledger} {i : NodeId} {n : Node}
    (hn : l.store.state.graph.nodes[i]? = some n)
    (h : ∀ c, .write c ∈ events → c.declared? ≠ some n.nodeKey) :
    (run events l).store.state.graph.nodes[i]? = some n := by
  refine run_induction (Q := fun l => l.store.state.graph.nodes[i]? = some n)
    (fun e he l hl => ?_) hn
  cases e with
  | write c =>
    refine Entry.record_induction (Q := fun g => g.nodes[i]? = some n)
      (fun u hu g g' hg hkeeps => ?_) hl
    refine Graph.getElem?_nodes_graph? hkeeps (fun given heq => ?_) hg
    exact (c.givesOnly_declared? u hu _ given heq).resolve_left (h c he)
  | connect => exact hl
  | disconnect => exact hl

end WriterEvent

end CodeGraph
