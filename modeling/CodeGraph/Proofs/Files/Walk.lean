import CodeGraph.Files.Walk
import CodeGraph.Proofs.Files.Path

/-!
# What a walk lists

A walk is closed if it lists everything together with the directory that it stands in
(`SourceWalk.Closed`).

* `parent?_ofNames`: the parent of a path of names is the path of all but the last.
* `visits_cases`: what a walk comes to is where it starts, or it stands in a
  directory that the walk comes to.
* `closed_walk`: so the walk of a directory is closed, where nothing has a dot for its name.
-/

namespace CodeGraph

/-- A walk lists its root, and sources and further directories only with the
directory that they stand in. -/
structure SourceWalk.Closed (walk : SourceWalk) (root : String) : Prop where
  listed : root ∈ walk.directories
  directories : ∀ path ∈ walk.directories, path ≠ root →
    ∃ parent ∈ walk.directories, Path.parent? path = some parent
  files : ∀ path ∈ walk.files, Path.isJavaSource path = true ∧
    ∃ parent ∈ walk.directories, Path.parent? path = some parent

namespace Path

/-! ## Paths of names -/

/-- What a file or a directory can be called. -/
structure IsName (name : String) : Prop where
  ne_empty : name ≠ ""
  ne_dot : name ≠ "."
  no_slash : '/' ∉ name.toList

variable {name : String} {names : List String}

theorem IsName.takeWhile_reverse (h : IsName name) {rest : List Char}
    (hrest : rest.head?.all (· = '/')) :
    (name.toList.reverse ++ rest).takeWhile (· != '/') = name.toList.reverse ∧
      (name.toList.reverse ++ rest).dropWhile (· != '/') = rest := by
  have hplain : ∀ c ∈ name.toList.reverse, (c != '/') = true := fun c hc =>
    bne_iff_ne.2 fun heq => h.no_slash (heq ▸ List.mem_reverse.1 hc)
  rw [List.takeWhile_append_of_pos hplain, List.dropWhile_append_of_pos hplain]
  cases rest with
  | nil => exact ⟨List.append_nil _, rfl⟩
  | cons c cs =>
    obtain rfl : c = '/' := by simpa using hrest
    exact ⟨List.append_nil _, rfl⟩

/-- A name at the end of a path is not trimmed. -/
theorem IsName.trimReversed_eq (h : IsName name) {rest : List Char}
    (hrest : rest.head?.all (· = '/')) (fuel : Nat) :
    trimReversed (fuel + 1) (name.toList.reverse ++ rest) = name.toList.reverse ++ rest := by
  obtain ⟨htake, -⟩ := h.takeWhile_reverse hrest
  have hne : name.toList.reverse ≠ [] := by
    simpa using h.ne_empty
  have hdot : name.toList.reverse ≠ ['.'] := fun heq => h.ne_dot <| String.toList_inj.1 <| by
    rw [← List.reverse_reverse name.toList, heq]
    rfl
  rw [trimReversed, htake, if_neg (by simp [h.ne_empty]), if_neg (by simp [hdot, h.ne_empty])]

theorem toList_ofNames (names : List String) :
    (ofNames names).toList = '/' :: ("/".intercalate names).toList := by
  simp [ofNames]

/-- What stands before the last name, read backwards. -/
theorem reverse_intercalate_concat (names : List String) (name : String) :
    ("/".intercalate (names ++ [name])).toList.reverse =
      name.toList.reverse ++
        if names = [] then [] else '/' :: ("/".intercalate names).toList.reverse := by
  cases names with
  | nil => simp
  | cons first rest =>
    rw [String.intercalate_append_of_ne_nil (List.cons_ne_nil _ _) (List.cons_ne_nil _ _)]
    simp

theorem trimReversed_intercalate (hnames : ∀ n ∈ names, IsName n) (fuel : Nat) :
    trimReversed (fuel + 1) ("/".intercalate names).toList.reverse =
      ("/".intercalate names).toList.reverse := by
  rcases List.eq_nil_or_concat names with rfl | ⟨outer, name, rfl⟩
  · rfl
  · rw [List.concat_eq_append] at hnames ⊢
    rw [reverse_intercalate_concat]
    have hname := hnames name (List.mem_append_right _ (List.mem_singleton_self name))
    refine hname.trimReversed_eq ?_ fuel
    split <;> rfl

/-- **The parent of names** is the path of all but the last. -/
theorem parent?_ofNames (hnames : ∀ n ∈ names, IsName n) (hname : IsName name) :
    parent? (ofNames (names ++ [name])) = some (ofNames names) := by
  let tail := if names = [] then [] else '/' :: ("/".intercalate names).toList.reverse
  have htail : tail.head?.all (· = '/') := by
    unfold tail
    split <;> rfl
  have hbody : reversedBody (ofNames (names ++ [name])).toList = name.toList.reverse ++ tail := by
    rw [toList_ofNames, reversedBody]
    exact (congrArg _ (reverse_intercalate_concat names name)).trans (hname.trimReversed_eq htail _)
  have hrest : ((name.toList.reverse ++ tail).dropWhile (· != '/')).drop 1 =
      ("/".intercalate names).toList.reverse := by
    rw [(hname.takeWhile_reverse htail).2]
    unfold tail
    split
    case isTrue hnil =>
      rw [hnil]
      rfl
    case isFalse => rfl
  unfold parent?
  dsimp only
  rw [hbody]
  split
  case h_1 hnil => simp [hname.ne_empty] at hnil
  case h_2 =>
    rw [hrest, trimReversed_intercalate hnames, List.reverse_reverse]
    refine congrArg some (String.toList_inj.1 ?_)
    rw [toList_ofNames, toList_ofNames, String.toList_ofList]
    rfl

end Path

namespace FileTree

mutual

/-- All that a tree contains is called by names. -/
def Named : FileTree → Prop
  | file _ => True
  | directory cs => AllNamed cs

def AllNamed : List (String × FileTree) → Prop
  | [] => True
  | (name, t) :: rest => Path.IsName name ∧ Named t ∧ AllNamed rest

end

theorem AllNamed.of_mem {cs : List (String × FileTree)} (h : AllNamed cs) {name : String}
    {t : FileTree} (hmem : (name, t) ∈ cs) : Path.IsName name ∧ t.Named := by
  induction cs with
  | nil => cases hmem
  | cons c rest ih =>
    obtain ⟨name', t'⟩ := c
    obtain ⟨hname, ht, hrest⟩ := h
    rcases List.mem_cons.1 hmem with heq | hmem
    · cases heq
      exact ⟨hname, ht⟩
    · exact ih hrest hmem

/-- A place where something is consists of names. -/
theorem Named.of_find? {t t' : FileTree} (h : t.Named) {place : List String}
    (hplace : t.find? place = some t') :
    (∀ n ∈ place, Path.IsName n) ∧ t'.Named := by
  induction place generalizing t with
  | nil =>
    cases hplace
    exact ⟨fun n hn => absurd hn List.not_mem_nil, h⟩
  | cons name rest ih =>
    cases t with
    | file bytes => cases hplace
    | directory cs =>
      rw [find?] at hplace
      cases hchild : (directory cs).child? name with
      | none =>
        rw [hchild] at hplace
        cases hplace
      | some c =>
        rw [hchild] at hplace
        obtain ⟨⟨name', c'⟩, hfind, hc⟩ := Option.map_eq_some_iff.1 hchild
        obtain rfl : c' = c := hc
        have hname : name' = name := by simpa using List.find?_some hfind
        obtain ⟨hisName, hnamed⟩ := AllNamed.of_mem h (List.mem_of_find?_eq_some hfind)
        obtain ⟨hrest, ht'⟩ := ih hnamed hplace
        refine ⟨fun n hn => ?_, ht'⟩
        rcases List.mem_cons.1 hn with rfl | hn
        · exact hname ▸ hisName
        · exact hrest n hn

/-! ## Visits -/

/-- Something that stands in a directory among these visits. -/
def StandsIn (found : List Visit) (place : List String) : Prop :=
  ∃ outer name, place = outer ++ [name] ∧ Path.IsName name ∧ (∀ n ∈ outer, Path.IsName n) ∧
    ⟨outer, true⟩ ∈ found

theorem StandsIn.mono {found found' : List Visit} {place : List String} (h : StandsIn found place)
    (hsub : ∀ v ∈ found, v ∈ found') : StandsIn found' place := by
  obtain ⟨outer, name, hplace, hname, hnames, hmem⟩ := h
  exact ⟨outer, name, hplace, hname, hnames, hsub _ hmem⟩

mutual

/-- What a walk comes to is where it starts, or it stands in a directory that the walk comes to. -/
theorem visits_cases (w : WalkState) (t : FileTree) (hnames : ∀ n ∈ w.names, Path.IsName n)
    (ht : t.Named) {v : Visit} (hv : v ∈ visits w t) :
    v = ⟨w.names.reverse, t.isDirectory⟩ ∨ StandsIn (visits w t) v.place := by
  match t with
  | file _ =>
    cases List.mem_singleton.1 hv
    exact .inl rfl
  | directory cs =>
    rw [visits] at hv ⊢
    rcases List.mem_cons.1 hv with rfl | hv
    · exact .inl rfl
    · exact .inr (visitsBelow_cases { w with rules := (directory cs).rules :: w.rules } cs
        hnames ht hv)

theorem visitsBelow_cases (w : WalkState) (cs : List (String × FileTree))
    (hnames : ∀ n ∈ w.names, Path.IsName n) (hcs : AllNamed cs) {v : Visit}
    (hv : v ∈ visitsBelow w cs) :
    StandsIn (⟨w.names.reverse, true⟩ :: visitsBelow w cs) v.place := by
  match cs with
  | [] => cases hv
  | (name, t) :: rest =>
    obtain ⟨hname, ht, hrest⟩ := hcs
    rw [visitsBelow] at hv ⊢
    rcases List.mem_append.1 hv with hv | hv
    · split at hv
      case isTrue => cases hv
      case isFalse hskips =>
        have hnames' : ∀ n ∈ name :: w.names, Path.IsName n :=
          List.forall_mem_cons.2 ⟨hname, hnames⟩
        rcases visits_cases { w with names := name :: w.names } t hnames' ht hv with rfl | hstands
        · exact ⟨w.names.reverse, name, List.reverse_cons, hname,
            fun n hn => hnames n (List.mem_reverse.1 hn), List.mem_cons_self⟩
        · refine hstands.mono fun v hv => List.mem_cons_of_mem _ (List.mem_append_left _ ?_)
          rw [if_neg hskips]
          exact hv
    · refine (visitsBelow_cases w rest hnames hrest hv).mono fun v hv => ?_
      exact List.mem_cons.2 ((List.mem_cons.1 hv).imp_right (List.mem_append_right _))

end

/-- Something that stands in a directory has that directory for its parent. -/
theorem StandsIn.exists_parent {found : List Visit} {place : List String}
    (h : StandsIn found place) :
    ∃ parent ∈ (found.filter (·.isDirectory)).map fun v => Path.ofNames v.place,
      Path.parent? (Path.ofNames place) = some parent := by
  obtain ⟨outer, name, rfl, hname, hnames, hmem⟩ := h
  exact ⟨_, List.mem_map_of_mem (List.mem_filter.2 ⟨hmem, rfl⟩), Path.parent?_ofNames hnames hname⟩

theorem mem_visits_self (w : WalkState) (cs : List (String × FileTree)) :
    ⟨w.names.reverse, true⟩ ∈ visits w (directory cs) := by
  rw [visits]
  exact List.mem_cons_self

variable {files : FileTree} {root : List String} {cs : List (String × FileTree)}

/-- A walk from a directory lists it. -/
theorem mem_directories_walk (h : files.find? root = some (directory cs)) (exclusion : Exclusion) :
    Path.ofNames root ∈ (files.walk root exclusion).directories := by
  rw [walk, h]
  refine List.mem_map.2 ⟨⟨root, true⟩, List.mem_filter.2 ⟨?_, rfl⟩, rfl⟩
  have hself := mem_visits_self ⟨exclusion, root.length, files.rulesAbove root, root.reverse⟩ cs
  rwa [List.reverse_reverse] at hself

/-- **The walk of a directory is closed**, whatever it passes over. -/
theorem closed_walk (hfiles : files.Named) (h : files.find? root = some (directory cs))
    (exclusion : Exclusion) :
    (files.walk root exclusion).Closed (Path.ofNames root) := by
  let start : WalkState := ⟨exclusion, root.length, files.rulesAbove root, root.reverse⟩
  obtain ⟨hroot, hcs⟩ := hfiles.of_find? h
  have hcases {v : Visit} (hv : v ∈ visits start (directory cs)) :
      v = ⟨root, true⟩ ∨ StandsIn (visits start (directory cs)) v.place := by
    have hnames : ∀ n ∈ start.names, Path.IsName n := fun n hn => hroot n (List.mem_reverse.1 hn)
    have hstart := visits_cases start (directory cs) hnames hcs hv
    rwa [List.reverse_reverse] at hstart
  have hlisted := mem_directories_walk h exclusion
  rw [walk, h] at hlisted ⊢
  refine ⟨hlisted, fun path hpath hne => ?_, fun path hpath => ?_⟩
  · obtain ⟨v, hv, rfl⟩ := List.mem_map.1 hpath
    rcases hcases (List.mem_filter.1 hv).1 with rfl | hstands
    · exact absurd rfl hne
    · exact hstands.exists_parent
  · obtain ⟨hmem, hjava⟩ := List.mem_filter.1 hpath
    obtain ⟨v, hv, rfl⟩ := List.mem_map.1 hmem
    obtain ⟨hv, hfile⟩ := List.mem_filter.1 hv
    rcases hcases hv with rfl | hstands
    · cases hfile
    · exact ⟨hjava, hstands.exists_parent⟩

end FileTree

end CodeGraph
