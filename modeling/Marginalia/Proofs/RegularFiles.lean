import Marginalia.Proofs.FileNames

/-! # The regular files of a tree

All files of a tree can be listed by their locations, the entries of every
directory in the order of their names. In a tree that a file system can hold,
the list has exactly the locations with a file at them, each once, and it is
sorted name by name.
-/

namespace Marginalia

namespace FileTree

/-- What holds of a directory if it holds of its entries holds of every tree. -/
@[elab_as_elim, induction_eliminator]
theorem entryInduction {motive : FileTree → Prop} (file : ∀ content, motive (.file content))
    (link : ∀ target, motive (.link target))
    (directory : ∀ entries, (∀ entry ∈ entries, motive entry.2) → motive (.directory entries))
    (tree : FileTree) : motive tree :=
  @FileTree.rec motive (fun entries => ∀ entry ∈ entries, motive entry.2)
    (fun entry => motive entry.2) file link directory (fun _ h => absurd h List.not_mem_nil)
    (fun _ _ hhead htail => List.forall_mem_cons.mpr ⟨hhead, htail⟩) (fun _ _ h => h) tree

/-- A tree that a file system can hold: the entries of a directory have proper
names, and no two have the same one. -/
inductive WellFormed : FileTree → Prop where
  | file (content : ByteArray) : WellFormed (.file content)
  | link (target : Path) : WellFormed (.link target)
  | directory {entries : List (Name × FileTree)} (distinct : (entries.map (·.1)).Nodup)
      (named : ∀ entry ∈ entries, Path.IsName entry.1)
      (below : ∀ entry ∈ entries, WellFormed entry.2) : WellFormed (.directory entries)

/-! ## Nodes -/

@[simp] theorem nodeAt?_nil (tree : FileTree) : tree.nodeAt? [] = some tree := rfl

theorem nodeAt?_cons (tree : FileTree) (name : Name) (location : Location) :
    tree.nodeAt? (name :: location) = (tree.entry? name).bind (nodeAt? · location) := rfl

theorem lookup_eq_some_iff {entries : List (Name × FileTree)}
    (hdistinct : (entries.map (·.1)).Nodup) {name : Name} {node : FileTree} :
    entries.lookup name = some node ↔ (name, node) ∈ entries := by
  induction entries with
  | nil => simp
  | cons entry entries ih =>
      obtain ⟨other, first⟩ := entry
      simp only [List.map_cons, List.nodup_cons] at hdistinct
      by_cases hname : name = other
      · subst hname
        have hlater : (name, node) ∉ entries := fun hmem =>
          hdistinct.1 (List.mem_map_of_mem hmem)
        simp [hlater, eq_comm]
      · have hother : (name == other) = false := beq_false_of_ne hname
        simp [List.lookup_cons, hother, hname, ih hdistinct.2]

theorem WellFormed.nodeAt? {tree node : FileTree} (h : tree.WellFormed) {location : Location}
    (hnode : tree.nodeAt? location = some node) : node.WellFormed := by
  induction location generalizing tree with
  | nil => exact Option.some.inj hnode ▸ h
  | cons name location ih =>
      rw [nodeAt?_cons, Option.bind_eq_some_iff] at hnode
      obtain ⟨next, hnext, hnode⟩ := hnode
      cases h with
      | file => exact absurd hnext (Option.some_ne_none _).symm
      | link => exact absurd hnext (Option.some_ne_none _).symm
      | directory distinct named below =>
          exact ih (below _ ((lookup_eq_some_iff distinct).mp hnext)) hnode

/-! ## Entries in the order of their names -/

/-- Entries in the order of their names. -/
def byName {α : Type} (entries : List (Name × α)) : List (Name × α) :=
  entries.mergeSort fun left right => decide (left.1 ≤ right.1)

@[simp] theorem mem_byName {α : Type} {entries : List (Name × α)} {entry : Name × α} :
    entry ∈ byName entries ↔ entry ∈ entries :=
  List.mem_mergeSort

/-- What the entries are replaced by does not change their order. -/
theorem byName_map {α β : Type} (f : Name × α → β) (entries : List (Name × α)) :
    byName (entries.map fun entry => (entry.1, f entry)) =
      (byName entries).map fun entry => (entry.1, f entry) :=
  Eq.symm <| List.map_mergeSort fun _ _ _ _ => rfl

theorem pairwise_byName {α : Type} {entries : List (Name × α)}
    (hdistinct : (entries.map (·.1)).Nodup) :
    (byName entries).Pairwise fun left right => left.1 < right.1 := by
  have hsorted : (byName entries).Pairwise fun left right => decide (left.1 ≤ right.1) = true := by
    apply List.pairwise_mergeSort
    · intro first second third hfirst hsecond
      simp only [decide_eq_true_eq] at hfirst hsecond ⊢
      exact List.le_trans hfirst hsecond
    · intro first second
      simpa using List.le_total first.1 second.1
  have hnames : ((byName entries).map (·.1)).Nodup :=
    ((List.mergeSort_perm _ _).map _).nodup_iff.mpr hdistinct
  refine (hsorted.and (List.pairwise_map.mp hnames)).imp ?_
  intro left right ⟨hle, hne⟩
  exact (List.le_iff_lt_or_eq.mp (of_decide_eq_true hle)).resolve_right hne

/-! ## Files -/

mutual

/-- The locations of the files of a tree, links not followed, in the order of
their names. -/
def fileLocations : FileTree → List Location
  | .file _ => [[]]
  | .link _ => []
  | .directory entries =>
      (byName (entryLocations entries)).flatMap fun found => found.2.map (found.1 :: ·)

/-- The locations of the files of each entry, as seen from there. -/
def entryLocations : List (Name × FileTree) → List (Name × List Location)
  | [] => []
  | (name, node) :: rest => (name, node.fileLocations) :: entryLocations rest

end

theorem entryLocations_eq_map (entries : List (Name × FileTree)) :
    entryLocations entries = entries.map fun entry => (entry.1, entry.2.fileLocations) := by
  induction entries with
  | nil => rfl
  | cons entry entries ih => rw [entryLocations, ih, List.map_cons]

theorem fileLocations_directory (entries : List (Name × FileTree)) :
    (directory entries).fileLocations =
      (byName entries).flatMap fun entry => entry.2.fileLocations.map (entry.1 :: ·) := by
  rw [fileLocations, entryLocations_eq_map, byName_map, List.flatMap_map]

theorem mem_fileLocations_directory {entries : List (Name × FileTree)} {location : Location} :
    location ∈ (directory entries).fileLocations ↔
      ∃ name node rest, (name, node) ∈ entries ∧ rest ∈ node.fileLocations ∧
        location = name :: rest := by
  simp only [fileLocations_directory, List.mem_flatMap, mem_byName, List.mem_map, Prod.exists]
  constructor
  · rintro ⟨name, node, hentry, rest, hrest, rfl⟩
    exact ⟨name, node, rest, hentry, hrest, rfl⟩
  · rintro ⟨name, node, rest, hentry, hrest, rfl⟩
    exact ⟨name, node, hentry, rest, hrest, rfl⟩

theorem ne_nil_of_mem_fileLocations {entries : List (Name × FileTree)} {location : Location}
    (h : location ∈ (directory entries).fileLocations) : location ≠ [] := by
  obtain ⟨name, _, rest, -, -, rfl⟩ := mem_fileLocations_directory.mp h
  exact List.cons_ne_nil _ _

namespace WellFormed

/-- The list has exactly the locations at which there is a file. -/
theorem mem_fileLocations_iff {tree : FileTree} (h : tree.WellFormed) {location : Location} :
    location ∈ tree.fileLocations ↔ ∃ content, tree.nodeAt? location = some (.file content) := by
  induction h generalizing location with
  | file content =>
      cases location with
      | nil => simp [fileLocations]
      | cons name rest => simp [fileLocations, nodeAt?_cons, entry?]
  | link target =>
      cases location with
      | nil => simp [fileLocations]
      | cons name rest => simp [fileLocations, nodeAt?_cons, entry?]
  | @directory entries distinct named below ih =>
      rw [mem_fileLocations_directory]
      cases location with
      | nil => simp
      | cons name rest =>
          simp only [nodeAt?_cons, entry?, Option.bind_eq_some_iff, lookup_eq_some_iff distinct]
          constructor
          · rintro ⟨_, node, _, hentry, hrest, heq⟩
            obtain ⟨rfl, rfl⟩ := List.cons.inj heq
            obtain ⟨content, hcontent⟩ := (ih _ hentry).mp hrest
            exact ⟨content, node, hentry, hcontent⟩
          · rintro ⟨content, node, hentry, hcontent⟩
            exact ⟨name, node, rest, hentry, (ih _ hentry).mpr ⟨content, hcontent⟩, rfl⟩

theorem isName_of_mem_fileLocations {tree : FileTree} (h : tree.WellFormed) {location : Location}
    (hmem : location ∈ tree.fileLocations) : ∀ name ∈ location, Path.IsName name := by
  induction h generalizing location with
  | file content =>
      obtain rfl := List.mem_singleton.mp hmem
      simp
  | link target => exact absurd hmem List.not_mem_nil
  | @directory entries distinct named below ih =>
      obtain ⟨name, node, rest, hentry, hrest, rfl⟩ := mem_fileLocations_directory.mp hmem
      exact List.forall_mem_cons.mpr ⟨named _ hentry, ih _ hentry hrest⟩

/-- The path of a file of a directory has the names of its location behind the
path of the directory. -/
theorem descend_eq {entries : List (Name × FileTree)}
    (h : (FileTree.directory entries).WellFormed) {location : Location}
    (hmem : location ∈ (FileTree.directory entries).fileLocations) (root : Path) :
    root.descend location = root.child (Path.join location) :=
  Path.descend_eq_child_join root (ne_nil_of_mem_fileLocations hmem)
    (h.isName_of_mem_fileLocations hmem)

theorem namesBelow_descend {entries : List (Name × FileTree)}
    (h : (FileTree.directory entries).WellFormed) {location : Location}
    (hmem : location ∈ (FileTree.directory entries).fileLocations) (root : Path) :
    root.namesBelow (root.descend location) = location :=
  Path.namesBelow_descend root (ne_nil_of_mem_fileLocations hmem)
    (h.isName_of_mem_fileLocations hmem)

/-- Two files of a directory have two paths. -/
theorem descend_inj {entries : List (Name × FileTree)}
    (h : (FileTree.directory entries).WellFormed) {first second : Location}
    (hfirst : first ∈ (FileTree.directory entries).fileLocations)
    (hsecond : second ∈ (FileTree.directory entries).fileLocations) {root : Path}
    (heq : root.descend first = root.descend second) : first = second := by
  have hnames := congrArg root.namesBelow heq
  rwa [h.namesBelow_descend hfirst, h.namesBelow_descend hsecond] at hnames

/-- The list is sorted name by name, without repetition. -/
theorem pairwise_fileLocations {tree : FileTree} (h : tree.WellFormed) :
    tree.fileLocations.Pairwise (· < ·) := by
  induction h with
  | file content => exact List.pairwise_singleton _ _
  | link target => exact .nil
  | @directory entries distinct named below ih =>
      rw [fileLocations_directory, List.pairwise_flatMap]
      -- Files of one entry have their first name in common; between two entries
      -- the first names decide.
      refine ⟨?_, ?_⟩
      · intro entry hentry
        rw [List.pairwise_map]
        apply (ih entry (mem_byName.mp hentry)).imp
        intro left right hlt
        exact List.cons_lt_cons_iff.mpr (.inr ⟨rfl, hlt⟩)
      · apply (pairwise_byName distinct).imp
        intro first second hlt left hleft right hright
        obtain ⟨left, -, rfl⟩ := List.mem_map.mp hleft
        obtain ⟨right, -, rfl⟩ := List.mem_map.mp hright
        exact List.cons_lt_cons_iff.mpr (.inl hlt)

end WellFormed

end FileTree

end Marginalia
