import CodeGraph.Proofs.Indexing.Memberships
import CodeGraph.Proofs.Indexing.Walked
import Mathlib.Logic.Relation

/-!
# Files in their directories

A walk that lists its root and the directory of everything else that it lists (`SourceWalk.Closed`)
leaves a tree of directories and files in the graph (`Graph.Contains`): each of them is entered
once, from the directory that it stands in.

* `Closed.directoryEntry_eq`: below the root a directory is written with its parent.
* `placesFiles_eq_false_of_mem_extract`: what files say of the code is not about
  files and directories.
* `mem_links_hasDir_iff`, `mem_links_hasFile_iff`: so their relationships are those of the walk.
* `walk_becomes_containment_tree`: the tree that a pass leaves, and that every source is
  counted, as read or as a failure.
-/

namespace CodeGraph

open Java Indexing

namespace Graph

/-- The relationships of a kind that enter a node. -/
def entering (g : Graph) (relation : Relation) (key : NodeKey) : List Link :=
  (g.links.filterMap id).filter fun l => l.target = key ∧ l.relation = relation

/-- A node is a directory and has the other one in it. -/
def Holds (g : Graph) (a b : NodeKey) : Prop :=
  some ⟨a, b, .hasDir⟩ ∈ g.links ∨ some ⟨a, b, .hasFile⟩ ∈ g.links

/-- The nodes of directories and files are these, in a tree below the root. -/
structure Contains (g : Graph) (root : String) (directories files : List String) : Prop where
  directory : ∀ path, ⟨.directory, path⟩ ∈ g.keys ↔ path ∈ directories
  file : ∀ path, ⟨.file, path⟩ ∈ g.keys ↔ path ∈ files
  top : g.entering .hasDir ⟨.directory, root⟩ = []
  subdirectory : ∀ path ∈ directories, path ≠ root → ∃ parent, Path.parent? path = some parent ∧
    g.entering .hasDir ⟨.directory, path⟩ = [⟨⟨.directory, parent⟩, ⟨.directory, path⟩, .hasDir⟩]
  inside : ∀ path ∈ files, ∃ parent, Path.parent? path = some parent ∧
    g.entering .hasFile ⟨.file, path⟩ = [⟨⟨.directory, parent⟩, ⟨.file, path⟩, .hasFile⟩]
  reachable : ∀ key ∈ g.keys, key.label = .directory ∨ key.label = .file →
    Relation.ReflTransGen g.Holds ⟨.directory, root⟩ key

theorem mem_entering {g : Graph} {relation : Relation} {key : NodeKey} {l : Link} :
    l ∈ g.entering relation key ↔ some l ∈ g.links ∧ l.target = key ∧ l.relation = relation := by
  simp [entering]

/-- A node that is only entered from one other is entered once. -/
theorem WellFormed.entering_eq_singleton {g : Graph} (h : g.WellFormed) {relation : Relation}
    {key start : NodeKey} (hstart : ∀ a, some ⟨a, key, relation⟩ ∈ g.links ↔ a = start) :
    g.entering relation key = [⟨start, key, relation⟩] := by
  have hnodup : (g.entering relation key).Nodup := h.nodup_filterMap_links.filter _
  refine List.perm_singleton.1
    ((List.perm_ext_iff_of_nodup hnodup (List.nodup_singleton _)).2 fun l => ?_)
  rw [mem_entering, List.mem_singleton]
  constructor
  · obtain ⟨a, target, relation'⟩ := l
    rintro ⟨hlink, rfl, rfl⟩
    rw [(hstart a).1 hlink]
  · rintro rfl
    exact ⟨(hstart start).2 rfl, rfl, rfl⟩

end Graph

/-! ## Entries of a walk -/

section

variable {walk : SourceWalk} {root path parent : String}

/-- Parents lead from everything that is listed up to the root. -/
theorem SourceWalk.Closed.names_root_begins (h : walk.Closed root)
    (hpath : path ∈ walk.directories) :
    Path.names root <+: Path.names path := by
  induction hlength : path.toList.length using Nat.strongRecOn generalizing path with
  | _ length ih =>
    by_cases hroot : path = root
    case pos => exact hroot ▸ List.prefix_rfl
    case neg =>
      obtain ⟨parent, hparent, heq⟩ := h.directories path hpath hroot
      have hshorter := Path.length_parent?_lt heq
      exact (ih _ (hlength ▸ hshorter) hparent rfl).trans (Path.names_prefix_of_parent? heq)

theorem directoryEntry_root (root : String) : directoryEntry root root = Entry.directory root := by
  rcases directoryEntry_cases root root with h | ⟨-, hne, -⟩
  · exact h
  · exact absurd rfl hne

/-- **Below the root a directory is written with its parent.** -/
theorem SourceWalk.Closed.directoryEntry_eq (h : walk.Closed root) (hpath : path ∈ walk.directories)
    (hroot : path ≠ root) (hparent : Path.parent? path = some parent) :
    directoryEntry root path = Entry.subdirectory parent path := by
  obtain ⟨parent', hmem, heq⟩ := h.directories path hpath hroot
  cases hparent.symm.trans heq
  have hwithin : Path.isWithin parent root = true :=
    List.isPrefixOf_iff_prefix.2 (h.names_root_begins hmem)
  simp only [directoryEntry, hparent]
  exact if_pos ⟨hroot, hwithin⟩

end

/-! ## What files say -/

/-- An upsert that is about directories and files. -/
def Upsert.placesFiles : Upsert → Bool
  | .node ⟨.directory, _⟩ _ | .node ⟨.file, _⟩ _ | .edge _ _ .hasDir | .edge _ _ .hasFile => true
  | _ => false

namespace Java

variable {index : ProjectIndex} {filter : NamespaceFilter} {file : SourceFile} {u : Upsert}

theorem FieldWrites.placesFiles_eq_false {q : String} (h : FieldWrites filter q u) :
    u.placesFiles = false := by
  cases h with
  | @node key given h =>
    obtain ⟨label, key⟩ := key
    rcases h with rfl | rfl <;> rfl
  | member => rfl
  | type => rfl

theorem BodyWrites.placesFiles_eq_false {signature : String} (h : BodyWrites filter signature u) :
    u.placesFiles = false := by
  cases h with
  | @node key h =>
    obtain ⟨label, key⟩ := key
    rcases h with rfl | rfl <;> rfl
  | call => rfl
  | use => rfl

theorem HeadWrites.placesFiles_eq_false (h : HeadWrites file u) : u.placesFiles = false := by
  rcases h with hu | hu
  all_goals
    rcases List.mem_cons.1 hu with rfl | hu
    · rfl
    · cases List.mem_singleton.1 hu
      rfl

theorem TypeWrites.placesFiles_eq_false {ctx : Context} {outer : Option String} {q : String}
    {d : Tree} (h : TypeWrites index filter file.path ctx outer q d u) : u.placesFiles = false := by
  cases h with
  | node hkind hu =>
    cases List.mem_singleton.1 hu
    rfl
  | inFile => rfl
  | nested => rfl
  | supertype hkind hu =>
    obtain ⟨type, relation, name, hclause, -, hu⟩ := mem_writes_recordSupertypes.1 hu
    rcases List.mem_cons.1 hu with rfl | hu
    · rfl
    · cases List.mem_singleton.1 hu
      rcases hclause with ⟨-, rfl⟩ | ⟨-, rfl⟩
      · rfl
      · unfold interfaceRelation
        split <;> rfl
  | component hkind hu =>
    exact (fieldWrites_of_mem_writes_recordComponentFields hu).placesFiles_eq_false
  | field hm hkind hu => exact (fieldWrites_of_mem_writes_recordFields hu).placesFiles_eq_false
  | method hm hkind hu =>
    obtain ⟨decl, signature, -, -, hu | rfl | hu⟩ := mem_writes_recordMethod.1 hu
    · cases List.mem_singleton.1 hu
      rfl
    · rcases membership_cases decl with h | h <;> rw [h] <;> rfl
    · exact (bodyWrites_of_mem_writes hu).placesFiles_eq_false

/-- **What a file says of the code** is not about directories and files. -/
theorem placesFiles_eq_false_of_mem_extract
    (hu : u ∈ writtenAll (fun _ => true) (extract index filter file)) : u.placesFiles = false := by
  rcases headWrites_or_typeWrites hu with h | ⟨ctx, outer, q, d, -, h⟩
  · exact h.placesFiles_eq_false
  · exact h.placesFiles_eq_false

/-- A source in a directory is written in it. -/
theorem mem_upserts_iff {parent : String} (hjava : Path.isJavaSource file.path = true)
    (hparent : Path.parent? file.path = some parent) :
    u ∈ file.upserts index filter (fun _ => true) ↔
      u ∈ Entry.fileIn parent file.path ∨
      u ∈ writtenAll (fun _ => true) (extract index filter file) := by
  rw [SourceFile.upserts, if_pos hjava, Entry.written_true, List.mem_append, fileEntry, hparent]

end Java

/-! ## What a walk writes -/

section

variable (walk : SourceWalk) (root : String) (index : ProjectIndex) (filter : NamespaceFilter)
  (sources : List SourceFile)

/-- The directories of a walk and what sources among its files say. -/
def SourceWalk.upserts : List Upsert :=
  walk.directories.flatMap (directoryEntry root) ++
    sources.flatMap (SourceFile.upserts index filter fun _ => true)

variable {walk root index filter sources} (h : walk.Closed root)
  (hsources : ∀ file ∈ sources, file.path ∈ walk.files) {u : Upsert}

include h hsources

/-- Directories, sources in their directories, and nothing else about these. -/
theorem SourceWalk.Closed.mem_upserts_iff (hu : u.placesFiles = true) :
    u ∈ walk.upserts root index filter sources ↔
      u = Entry.stub .directory root ∨
      (∃ path ∈ walk.directories, path ≠ root ∧
        ∃ parent ∈ walk.directories, Path.parent? path = some parent ∧
        u ∈ Entry.subdirectory parent path) ∨
      ∃ file ∈ sources, ∃ parent ∈ walk.directories, Path.parent? file.path = some parent ∧
        u ∈ Entry.fileIn parent file.path := by
  rw [SourceWalk.upserts, List.mem_append, List.mem_flatMap, List.mem_flatMap, ← or_assoc]
  refine or_congr ⟨?_, ?_⟩ ⟨?_, ?_⟩
  · rintro ⟨path, hpath, hmem⟩
    by_cases hroot : path = root
    case pos =>
      subst hroot
      rw [directoryEntry_root] at hmem
      exact .inl (List.mem_singleton.1 hmem)
    case neg =>
      obtain ⟨parent, hmem', hparent⟩ := h.directories path hpath hroot
      rw [h.directoryEntry_eq hpath hroot hparent] at hmem
      exact .inr ⟨path, hpath, hroot, parent, hmem', hparent, hmem⟩
  · rintro (rfl | ⟨path, hpath, hroot, parent, -, hparent, hmem⟩)
    · refine ⟨root, h.listed, ?_⟩
      rw [directoryEntry_root]
      exact List.mem_singleton_self _
    · refine ⟨path, hpath, ?_⟩
      rwa [h.directoryEntry_eq hpath hroot hparent]
  · rintro ⟨file, hfile, hmem⟩
    obtain ⟨hjava, parent, hmem', hparent⟩ := h.files file.path (hsources file hfile)
    rcases (Java.mem_upserts_iff hjava hparent).1 hmem with hmem | hmem
    · exact ⟨file, hfile, parent, hmem', hparent, hmem⟩
    · exact absurd (hu.symm.trans (placesFiles_eq_false_of_mem_extract hmem)) (by decide)
  · rintro ⟨file, hfile, parent, -, hparent, hmem⟩
    obtain ⟨hjava, -⟩ := h.files file.path (hsources file hfile)
    exact ⟨file, hfile, (Java.mem_upserts_iff hjava hparent).2 (.inl hmem)⟩

variable {g : Graph} (hg : Graph.empty.applyAll? (walk.upserts root index filter sources) = some g)

include hg

theorem SourceWalk.Closed.mem_keys_directory_iff {path : String} :
    ⟨.directory, path⟩ ∈ g.keys ↔ path ∈ walk.directories := by
  rw [Graph.mem_keys_of_applyAll?_empty hg]
  constructor
  · rintro ⟨given, hmem⟩
    rcases (h.mem_upserts_iff hsources rfl).1 hmem with
      hroot | ⟨path', hpath', -, parent, hparent, -, hmem⟩ | ⟨file, -, parent, hparent, -, hmem⟩
    · cases hroot
      exact h.listed
    · simp only [Entry.subdirectory, Entry.directory, Entry.stub, List.mem_append,
        List.mem_singleton, Upsert.node.injEq, NodeKey.mk.injEq, true_and, reduceCtorEq,
        or_false] at hmem
      rcases hmem with ⟨rfl, -⟩ | ⟨rfl, -⟩
      · exact hparent
      · exact hpath'
    · simp only [Entry.fileIn, Entry.directory, Entry.file, Entry.stub, List.mem_append,
        List.mem_singleton, Upsert.node.injEq, NodeKey.mk.injEq, true_and, reduceCtorEq, false_and,
        or_false] at hmem
      exact hmem.1 ▸ hparent
  · intro hpath
    refine ⟨Dict.empty, (h.mem_upserts_iff hsources rfl).2 ?_⟩
    by_cases hroot : path = root
    case pos => exact .inl (hroot ▸ rfl)
    case neg =>
      obtain ⟨parent, hmem, hparent⟩ := h.directories path hpath hroot
      exact .inr (.inl ⟨path, hpath, hroot, parent, hmem, hparent,
        List.mem_cons_of_mem _ List.mem_cons_self⟩)

theorem SourceWalk.Closed.mem_keys_file_iff {path : String} :
    ⟨.file, path⟩ ∈ g.keys ↔ path ∈ sources.map (·.path) := by
  rw [Graph.mem_keys_of_applyAll?_empty hg, List.mem_map]
  constructor
  · rintro ⟨given, hmem⟩
    rcases (h.mem_upserts_iff hsources rfl).1 hmem with
      hroot | ⟨path', -, -, parent, -, -, hmem⟩ | ⟨file, hfile, parent, -, -, hmem⟩
    · cases hroot
    · simp [Entry.subdirectory, Entry.directory, Entry.stub] at hmem
    · simp only [Entry.fileIn, Entry.directory, Entry.file, Entry.stub, List.mem_append,
        List.mem_singleton, Upsert.node.injEq, NodeKey.mk.injEq, true_and, reduceCtorEq, false_and,
        or_false, false_or] at hmem
      exact ⟨file, hfile, hmem.1.symm⟩
  · rintro ⟨file, hfile, rfl⟩
    obtain ⟨-, parent, hmem, hparent⟩ := h.files file.path (hsources file hfile)
    exact ⟨_, (h.mem_upserts_iff hsources rfl).2
      (.inr (.inr ⟨file, hfile, parent, hmem, hparent, List.mem_cons_of_mem _ List.mem_cons_self⟩))⟩

variable (hsmall : g.nodes.size < 0xffffffff)

include hsmall

/-- **Directories hold directories** as their paths say. -/
theorem SourceWalk.Closed.mem_links_hasDir_iff {a b : NodeKey} :
    some ⟨a, b, .hasDir⟩ ∈ g.links ↔ ∃ path ∈ walk.directories, path ≠ root ∧
      ∃ parent ∈ walk.directories, Path.parent? path = some parent ∧
        a = ⟨.directory, parent⟩ ∧ b = ⟨.directory, path⟩ := by
  rw [Graph.mem_links_of_applyAll?_empty hg hsmall]
  refine (h.mem_upserts_iff hsources rfl).trans ⟨?_, ?_⟩
  · rintro (hroot | ⟨path, hpath, hroot, parent, hmem, hparent, hu⟩ | ⟨file, -, parent, -, -, hu⟩)
    · cases hroot
    · simp only [Entry.subdirectory, Entry.directory, Entry.stub, List.mem_append,
        List.mem_singleton, reduceCtorEq, false_or, Upsert.edge.injEq, and_true] at hu
      exact ⟨path, hpath, hroot, parent, hmem, hparent, hu⟩
    · simp [Entry.fileIn, Entry.directory, Entry.file, Entry.stub] at hu
  · rintro ⟨path, hpath, hroot, parent, hmem, hparent, rfl, rfl⟩
    exact .inr (.inl ⟨path, hpath, hroot, parent, hmem, hparent,
      List.mem_append_right _ (List.mem_singleton_self _)⟩)

/-- **Directories hold sources** as their paths say. -/
theorem SourceWalk.Closed.mem_links_hasFile_iff {a b : NodeKey} :
    some ⟨a, b, .hasFile⟩ ∈ g.links ↔ ∃ file ∈ sources,
      ∃ parent ∈ walk.directories, Path.parent? file.path = some parent ∧
        a = ⟨.directory, parent⟩ ∧ b = ⟨.file, file.path⟩ := by
  rw [Graph.mem_links_of_applyAll?_empty hg hsmall]
  refine (h.mem_upserts_iff hsources rfl).trans ⟨?_, ?_⟩
  · rintro (hroot | ⟨path, -, -, parent, -, -, hu⟩ | ⟨file, hfile, parent, hmem, hparent, hu⟩)
    · cases hroot
    · simp [Entry.subdirectory, Entry.directory, Entry.stub] at hu
    · simp only [Entry.fileIn, Entry.directory, Entry.file, Entry.stub, List.mem_append,
        List.mem_singleton, reduceCtorEq, false_or, Upsert.edge.injEq, and_true] at hu
      exact ⟨file, hfile, parent, hmem, hparent, hu⟩
  · rintro ⟨file, hfile, parent, hmem, hparent, rfl, rfl⟩
    exact .inr (.inr ⟨file, hfile, parent, hmem, hparent,
      List.mem_append_right _ (List.mem_singleton_self _)⟩)

/-- **The root leads to every directory.** -/
theorem SourceWalk.Closed.reachable_directory {path : String} (hpath : path ∈ walk.directories) :
    Relation.ReflTransGen g.Holds ⟨.directory, root⟩ ⟨.directory, path⟩ := by
  induction hlength : path.toList.length using Nat.strongRecOn generalizing path with
  | _ length ih =>
    by_cases hroot : path = root
    case pos => exact hroot ▸ .refl
    case neg =>
      obtain ⟨parent, hmem, hparent⟩ := h.directories path hpath hroot
      refine (ih _ (hlength ▸ Path.length_parent?_lt hparent) hmem rfl).tail (.inl ?_)
      exact (h.mem_links_hasDir_iff hsources hg hsmall).2 ⟨path, hpath, hroot, parent, hmem,
        hparent, rfl, rfl⟩

/-- Nothing enters the root. -/
theorem SourceWalk.Closed.entering_root : g.entering .hasDir ⟨.directory, root⟩ = [] := by
  refine List.eq_nil_iff_forall_not_mem.2 fun l hl => ?_
  obtain ⟨start, target, relation⟩ := l
  obtain ⟨hlink, rfl, rfl⟩ := Graph.mem_entering.1 hl
  obtain ⟨path, -, hroot, -, -, -, -, htarget⟩ :=
    (h.mem_links_hasDir_iff hsources hg hsmall).1 hlink
  cases htarget
  exact hroot rfl

/-- A directory below the root is entered from its parent. -/
theorem SourceWalk.Closed.entering_directory {path parent : String}
    (hpath : path ∈ walk.directories) (hroot : path ≠ root)
    (hparent : Path.parent? path = some parent) :
    g.entering .hasDir ⟨.directory, path⟩ =
      [⟨⟨.directory, parent⟩, ⟨.directory, path⟩, .hasDir⟩] := by
  have hwell : g.WellFormed := Graph.wellFormed_empty.applyAll? hg
  refine hwell.entering_eq_singleton fun a =>
    (h.mem_links_hasDir_iff hsources hg hsmall).trans ⟨?_, ?_⟩
  · rintro ⟨path', -, -, parent', -, hparent', rfl, htarget⟩
    cases htarget
    cases hparent.symm.trans hparent'
    rfl
  · rintro rfl
    obtain ⟨parent', hmem, hparent'⟩ := h.directories path hpath hroot
    cases hparent.symm.trans hparent'
    exact ⟨path, hpath, hroot, parent, hmem, hparent, rfl, rfl⟩

/-- A source is entered from the directory that it stands in. -/
theorem SourceWalk.Closed.entering_file {file : SourceFile} {parent : String}
    (hfile : file ∈ sources) (hparent : Path.parent? file.path = some parent) :
    g.entering .hasFile ⟨.file, file.path⟩ =
      [⟨⟨.directory, parent⟩, ⟨.file, file.path⟩, .hasFile⟩] := by
  have hwell : g.WellFormed := Graph.wellFormed_empty.applyAll? hg
  refine hwell.entering_eq_singleton fun a =>
    (h.mem_links_hasFile_iff hsources hg hsmall).trans ⟨?_, ?_⟩
  · rintro ⟨file', -, parent', -, hparent', rfl, htarget⟩
    have hpath : file.path = file'.path := (NodeKey.mk.inj htarget).2
    cases hparent.symm.trans (hpath ▸ hparent')
    rfl
  · rintro rfl
    obtain ⟨-, parent', hmem, hparent'⟩ := h.files file.path (hsources file hfile)
    cases hparent.symm.trans hparent'
    exact ⟨file, hfile, parent, hmem, hparent, rfl, rfl⟩

/-- **What a closed walk leaves is a tree.** -/
theorem SourceWalk.Closed.contains : g.Contains root walk.directories (sources.map (·.path)) := by
  constructor
  case directory => exact fun path => h.mem_keys_directory_iff hsources hg
  case file => exact fun path => h.mem_keys_file_iff hsources hg
  case top => exact h.entering_root hsources hg hsmall
  case subdirectory =>
    intro path hpath hroot
    obtain ⟨parent, -, hparent⟩ := h.directories path hpath hroot
    exact ⟨parent, hparent, h.entering_directory hsources hg hsmall hpath hroot hparent⟩
  case inside =>
    intro path hpath
    obtain ⟨file, hfile, rfl⟩ := List.mem_map.1 hpath
    obtain ⟨-, parent, -, hparent⟩ := h.files file.path (hsources file hfile)
    exact ⟨parent, hparent, h.entering_file hsources hg hsmall hfile hparent⟩
  case reachable =>
    rintro ⟨label, path⟩ hkey (rfl | rfl)
    · exact h.reachable_directory hsources hg hsmall ((h.mem_keys_directory_iff hsources hg).1 hkey)
    · obtain ⟨file, hfile, rfl⟩ := List.mem_map.1 ((h.mem_keys_file_iff hsources hg).1 hkey)
      obtain ⟨-, parent, hmem, hparent⟩ := h.files file.path (hsources file hfile)
      refine (h.reachable_directory hsources hg hsmall hmem).tail (.inr ?_)
      exact (h.mem_links_hasFile_iff hsources hg hsmall).2 ⟨file, hfile, parent, hmem,
        hparent, rfl, rfl⟩

end

/-! ## Passes -/

section

variable (filter : NamespaceFilter) (parse : String → Tree) (read? : String → Option String)
  {root : String} {walk : SourceWalk}

/-- In a small graph all of a walk is written. -/
theorem applyAll?_upserts :
    let g := (Store.empty.indexWalk filter parse read? root walk).2.state.graph
    let sources := walk.sources parse read?
    g.nodes.size < 0xffffffff →
      Graph.empty.applyAll? (walk.upserts root (.build sources) filter sources) = some g := by
  intro g sources hroom
  obtain ⟨state, hpass, hwritten, -⟩ := indexWalk_spec filter parse read? root walk .empty
  have hgraph : g = state.graph := congrArg (·.state.graph) hpass
  rw [hgraph] at hroom ⊢
  have happlied := hwritten.applied _ (Graph.names_true (Nat.le_of_lt hroom))
  simp only [Entry.written_true] at happlied
  exact happlied

/-- A pass over a closed walk leaves its tree, and it counts its files. -/
theorem indexWalk_contains (h : walk.Closed root) :
    let pass := Store.empty.indexWalk filter parse read? root walk
    (pass.2.state.graph.nodes.size < 0xffffffff → pass.2.state.graph.Contains root walk.directories
      (walk.files.filter fun path => (read? path).isSome)) ∧
    pass.1.files + pass.1.parseFailures.length = walk.files.length := by
  intro pass
  have hjava : ∀ path ∈ walk.files, Path.isJavaSource path = true :=
    fun path hpath => (h.files path hpath).1
  refine ⟨fun hroom => ?_, files_add_length_parseFailures filter parse read? hjava .empty⟩
  rw [← walk.map_path_sources parse read?]
  exact h.contains (fun file hfile => walk.path_mem_files hfile)
    (applyAll?_upserts filter parse read? hroom) hroom

end

/-- **Files and directories form a containment tree.** A pass over a walk that is closed, into an
empty store, leaves its directories and the files that could be read as the only ones. Nothing
enters the root, and each other one of them is entered once, from the directory that its path stands
in, so the root leads to all of them. Every file that the walk lists is counted, as read or as a
failure. This is so of all walks, and so of the one that a pass over a directory makes, which is
closed where nothing has a dot for its name. The graph is meant to have room for its nodes. -/
theorem walk_becomes_containment_tree :
    (∀ (filter : NamespaceFilter) (parse : String → Tree) (read? : String → Option String)
      (root : String) (walk : SourceWalk), walk.Closed root →
      let pass := Store.empty.indexWalk filter parse read? root walk
      (pass.2.state.graph.nodes.size < 0xffffffff →
        pass.2.state.graph.Contains root walk.directories (walk.files.filter fun path =>
          (read? path).isSome)) ∧
      pass.1.files + pass.1.parseFailures.length = walk.files.length) ∧
    ∀ (settings : IndexingSettings) (parse : String → Tree) (files : FileTree) (path : String)
      (report : IndexReport) (s : Store),
      Store.empty.indexProject settings parse files path = .ok (report, s) →
      ∃ root exclusion, files.resolve [] path = .ok root ∧
        Exclusion.ofTexts settings.exclude = .ok exclusion ∧
        let walk := files.walk root exclusion
        let read? := fun path => (files.read? (Path.names path)).bind Text.decode?
        (files.Named → ∀ cs, files.find? root = some (.directory cs) →
          walk.Closed (Path.ofNames root)) ∧
        (walk.Closed (Path.ofNames root) →
          (s.state.graph.nodes.size < 0xffffffff →
            s.state.graph.Contains (Path.ofNames root) walk.directories
              (walk.files.filter fun path => (read? path).isSome)) ∧
          report.files + report.parseFailures.length = walk.files.length) := by
  refine ⟨fun filter parse read? root walk h => indexWalk_contains filter parse read? h,
    fun settings parse files path report s hs => ?_⟩
  obtain ⟨root, exclusion, hroot, hexclusion, hwalk⟩ := exists_walk_of_indexProject hs
  refine ⟨root, exclusion, hroot, hexclusion,
    fun hnamed cs hcs => FileTree.closed_walk hnamed hcs exclusion, fun h => ?_⟩
  have hcontains := indexWalk_contains ⟨settings.excludedNamespaces⟩ parse
    (fun path => (files.read? (Path.names path)).bind Text.decode?) h
  rwa [← hwalk] at hcontains

/-- A directory within a directory, with a source in each, of which one cannot be read. -/
theorem walk_becomes_containment_tree_unreadableSource :
    let files : FileTree :=
      .directory [("p", .directory [("B.java", .file [0xff]),
        ("a", .directory [("A.java", .file [])])])]
    let walk : SourceWalk := ⟨["/p", "/p/a"], ["/p/B.java", "/p/a/A.java"]⟩
    let read? := fun path => (files.read? (Path.names path)).bind Text.decode?
    walk.Closed "/p" ∧
      (let pass := Store.empty.indexWalk ⟨[]⟩ (fun _ => typedFields) read? "/p" walk
      pass.2.state.graph.Contains "/p" walk.directories ["/p/a/A.java"] ∧
        pass.1.files + pass.1.parseFailures.length = 2) ∧
      files.Named ∧ ∃ report s, Store.empty.indexProject {} (fun _ => typedFields) files "/p" =
        .ok (report, s) ∧
        s.state.graph.Contains "/p" walk.directories ["/p/a/A.java"] ∧
        report.files + report.parseFailures.length = 2 := by
  intro files walk read?
  have hclosed : walk.Closed "/p" := ⟨by decide +kernel, by decide +kernel, by decide +kernel⟩
  obtain ⟨hwalks, hprojects⟩ := walk_becomes_containment_tree
  obtain ⟨hcontains, hcounts⟩ := hwalks ⟨[]⟩ (fun _ => typedFields) read? "/p" walk hclosed
  have hname {name : String} (h : name ≠ "" ∧ name ≠ "." ∧ '/' ∉ name.toList) : Path.IsName name :=
    ⟨h.1, h.2.1, h.2.2⟩
  have hnamed : files.Named :=
    ⟨hname (by decide), ⟨hname (by decide), trivial, hname (by decide),
      ⟨hname (by decide), trivial, trivial⟩, trivial⟩,
      trivial⟩
  refine ⟨hclosed, ⟨hcontains (by decide +kernel), hcounts⟩, hnamed, ?_⟩
  have hpass : (Store.empty.indexProject {} (fun _ => typedFields) files "/p").toOption.any
      (·.2.state.graph.nodes.size < 0xffffffff) := by decide +kernel
  cases hresult : Store.empty.indexProject {} (fun _ => typedFields) files "/p" with
  | error e =>
    rw [hresult] at hpass
    cases hpass
  | ok p =>
    obtain ⟨report, s⟩ := p
    rw [hresult] at hpass
    obtain ⟨root, exclusion, hroot, hexclusion, hclosed', hproject⟩ :=
      hprojects {} (fun _ => typedFields) files "/p" report s hresult
    obtain rfl : ["p"] = root := Except.ok.inj hroot
    obtain rfl : [] = exclusion := Except.ok.inj hexclusion
    have hwalk : files.walk ["p"] [] = walk := by decide +kernel
    rw [hwalk] at hclosed' hproject
    obtain ⟨hcontains, hcounts⟩ := hproject (hclosed' hnamed _ rfl)
    exact ⟨report, s, rfl, hcontains (of_decide_eq_true hpass), hcounts⟩

end CodeGraph
