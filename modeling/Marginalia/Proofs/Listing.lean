import Mathlib.Data.List.Basic
import Marginalia.Proofs.RegularFiles

/-! # What a walk lists

A walk goes down directory by directory and does not enter what it passes over.
All the same, it lists what a choice among all files of the tree would give: a
file is listed if it is not too deep, nothing on the way to it is passed over by
name or hidden, and its language is of interest.
-/

namespace Marginalia

namespace Path

/-- No name on the way down from a directory is passed over. -/
def spares (globs : List String) (path : Path) : Location → Bool
  | [] => true
  | name :: rest => !(path.child name).isRejected globs && spares globs (path.child name) rest

/-- The names alone decide whether anything is passed over by name. -/
theorem spares_eq_all (globs : List String) (path : Path) {names : Location}
    (h : ∀ name ∈ names, IsName name) :
    path.spares globs names = names.all fun name => !isRejected globs ⟨name⟩ := by
  induction names generalizing path with
  | nil => rfl
  | cons name rest ih =>
      obtain ⟨hname, hrest⟩ := List.forall_mem_cons.mp h
      rw [spares, List.all_cons, isRejected_child _ _ hname, ih _ hrest]

end Path

namespace Walk

/-- Nothing on the way down from a directory is hidden or ignored, unless that
does not matter. All but the last name are names of directories. -/
def sees (walk : Walk) (levels : List RuleLevel) (path : Path) (here : Location) :
    Location → Bool
  | [] => true
  | name :: rest =>
      let inside := walk.enter levels path here
      (walk.options.all || !walk.hides inside name (path.child name) (!rest.isEmpty)) &&
        walk.sees inside (path.child name) (here ++ [name]) rest

/-- With everything asked for, nothing is hidden. -/
theorem sees_of_all {walk : Walk} (h : walk.options.all = true) (levels : List RuleLevel)
    (path : Path) (here names : Location) : walk.sees levels path here names = true := by
  induction names generalizing levels path here with
  | nil => rfl
  | cons name rest ih => simp [sees, h, ih]

/-- Whether a walk lists the file to which some names lead from a directory at
the given depth. -/
def lists (walk : Walk) (levels : List RuleLevel) (path : Path) (here : Location) (depth : Nat)
    (names : Location) : Bool :=
  walk.options.maxDepth.all (depth + names.length ≤ ·) && path.spares walk.options.globs names &&
    walk.sees levels path here names && walk.options.admits (path.descend names)

/-- A file is listed if the entry on the way to it is not passed over and the file
is listed from there. -/
theorem lists_cons (walk : Walk) (levels : List RuleLevel) (path : Path) (here : Location)
    (depth : Nat) (name : Name) (rest : Location) :
    walk.lists levels path here depth (name :: rest) =
      (!walk.skips (walk.enter levels path here) name (path.child name) (!rest.isEmpty) &&
        walk.lists (walk.enter levels path here) (path.child name) (here ++ [name]) (depth + 1)
          rest) := by
  have hdepth : depth + (name :: rest).length = depth + 1 + rest.length := by
    simp only [List.length_cons]
    omega
  simp only [lists, Path.spares, sees, skips, hdepth, Path.descend_cons, Bool.not_or, Bool.not_and,
    Bool.not_not]
  ac_rfl

theorem lists_nil (walk : Walk) (levels : List RuleLevel) (path : Path) (here : Location)
    (depth : Nat) :
    walk.lists levels path here depth [] =
      (walk.options.maxDepth.all (depth ≤ ·) && walk.options.admits path) := by
  simp [lists, Path.spares, sees]

theorem lists_eq_false_of_deep {walk : Walk} {depth : Nat}
    (h : walk.options.maxDepth.all (depth < ·) = false) (levels : List RuleLevel) (path : Path)
    (here : Location) (name : Name) (rest : Location) :
    walk.lists levels path here depth (name :: rest) = false := by
  have hdeep : walk.options.maxDepth.all (depth + (name :: rest).length ≤ ·) = false := by
    cases hmax : walk.options.maxDepth with
    | none => simp [hmax] at h
    | some limit =>
        simp only [hmax, Option.all_some, decide_eq_false_iff_not, List.length_cons] at h ⊢
        omega
  rw [lists, hdeep, Bool.false_and, Bool.false_and, Bool.false_and]

/-! ## One directory -/

/-- The files that one entry of a directory contributes. -/
def filesOfEntry (walk : Walk) (levels : List RuleLevel) (path : Path) (here : Location)
    (depth : Nat) (entry : Name × FileTree) : List Path :=
  if walk.skips levels entry.1 (path.child entry.1) entry.2.isDirectory then []
  else if entry.2.isFile then
    if walk.options.admits (path.child entry.1) then [path.child entry.1] else []
  else walk.filesBelow levels (path.child entry.1) (here ++ [entry.1]) depth entry.2

theorem filesOfEntries_eq_map (walk : Walk) (levels : List RuleLevel) (path : Path)
    (here : Location) (depth : Nat) (entries : List (Name × FileTree)) :
    walk.filesOfEntries levels path here depth entries =
      entries.map fun entry => (entry.1, walk.filesOfEntry levels path here depth entry) := by
  induction entries with
  | nil => rw [filesOfEntries, List.map_nil]
  | cons entry entries ih =>
      rw [filesOfEntries, ih, List.map_cons]
      rfl

theorem filesBelow_directory (walk : Walk) (levels : List RuleLevel) (path : Path)
    (here : Location) (depth : Nat) (entries : List (Name × FileTree)) :
    walk.filesBelow levels path here depth (.directory entries) =
      if walk.options.maxDepth.all (depth < ·) then
        (FileTree.byName entries).flatMap
          (walk.filesOfEntry (walk.enter levels path here) path here (depth + 1))
      else [] := by
  have horder (found : List (Name × List Path)) :
      inNameOrder found = (FileTree.byName found).flatMap (·.2) := rfl
  rw [filesBelow, filesOfEntries_eq_map, horder, FileTree.byName_map, List.flatMap_map]

/-- An entry contributes the files behind it that are listed. A file among the
entries is listed itself, a directory is entered unless it is passed over. -/
theorem filesOfEntry_eq_filter (walk : Walk) (levels : List RuleLevel) (path : Path)
    (here : Location) {depth : Nat} (hdepth : walk.options.maxDepth.all (depth < ·) = true)
    (entry : Name × FileTree)
    (ih : entry.2.isFile = false → ∀ levels path here depth,
      walk.filesBelow levels path here depth entry.2 =
        (entry.2.fileLocations.filter (walk.lists levels path here depth)).map path.descend) :
    walk.filesOfEntry (walk.enter levels path here) path here (depth + 1) entry =
      ((entry.2.fileLocations.map (entry.1 :: ·)).filter (walk.lists levels path here depth)).map
        path.descend := by
  obtain ⟨name, node⟩ := entry
  cases node with
  | file content =>
      have hlists : walk.lists levels path here depth [name] =
          (!walk.skips (walk.enter levels path here) name (path.child name) false &&
            walk.options.admits (path.child name)) := by
        rw [lists_cons, lists_nil]
        simp only [Nat.succ_le_iff, hdepth, List.isEmpty_nil, Bool.not_true, Bool.true_and]
      simp only [filesOfEntry, FileTree.fileLocations, FileTree.isDirectory, FileTree.isFile,
        List.map_cons, List.map_nil, List.filter_cons, List.filter_nil, hlists]
      cases walk.skips (walk.enter levels path here) name (path.child name) false <;>
        cases walk.options.admits (path.child name) <;> rfl
  | link target =>
      simp [filesOfEntry, FileTree.fileLocations, FileTree.isFile, filesBelow]
  | directory entries =>
      -- A file behind a directory is at least one name further down, so the test
      -- that `lists` makes of the entry is the one for directories.
      have hlists : ∀ rest ∈ (FileTree.directory entries).fileLocations,
          walk.lists levels path here depth (name :: rest) =
            (!walk.skips (walk.enter levels path here) name (path.child name) true &&
              walk.lists (walk.enter levels path here) (path.child name) (here ++ [name])
                (depth + 1) rest) := by
        intro rest hrest
        obtain ⟨next, _, more, -, -, rfl⟩ := FileTree.mem_fileLocations_directory.mp hrest
        rw [lists_cons, List.isEmpty_cons, Bool.not_false]
      simp only [List.filter_map, List.map_map, Function.comp_def]
      rw [List.filter_congr hlists, filesOfEntry]
      cases hskips : walk.skips (walk.enter levels path here) name (path.child name) true with
      | true => simp [FileTree.isDirectory, hskips]
      | false =>
          simp only [FileTree.isDirectory, hskips, Bool.not_false, Bool.true_and]
          exact ih rfl _ _ _ _

/-- The files of a walk are those of the tree that it lists. -/
theorem filesBelow_eq_filter (walk : Walk) {tree : FileTree} (h : tree.isFile = false)
    (levels : List RuleLevel) (path : Path) (here : Location) (depth : Nat) :
    walk.filesBelow levels path here depth tree =
      (tree.fileLocations.filter (walk.lists levels path here depth)).map path.descend := by
  induction tree generalizing levels path here depth with
  | file content => exact absurd h Bool.noConfusion
  | link target =>
      rw [filesBelow, FileTree.fileLocations]
      rfl
  | directory entries ih =>
      rw [filesBelow_directory]
      split
      next hdepth =>
        rw [FileTree.fileLocations_directory, List.filter_flatMap, List.map_flatMap]
        apply List.flatMap_congr
        intro entry hentry
        apply walk.filesOfEntry_eq_filter levels path here hdepth entry
        exact fun hfile => ih entry (FileTree.mem_byName.mp hentry) hfile
      next hdepth =>
        have hnone : (FileTree.directory entries).fileLocations.filter
            (walk.lists levels path here depth) = [] := by
          apply List.filter_eq_nil_iff.mpr
          intro location hlocation
          obtain ⟨name, _, rest, -, -, rfl⟩ := FileTree.mem_fileLocations_directory.mp hlocation
          rw [lists_eq_false_of_deep (Bool.eq_false_iff.mpr hdepth)]
          exact Bool.false_ne_true
        rw [hnone, List.map_nil]

/-- Whether a walk lists the file to which some names lead from its root. -/
def listsFromRoot (walk : Walk) (here : Location) (names : Location) : Bool :=
  walk.lists (if walk.options.all then [] else walk.tree.levelsAbove walk.session here) walk.root
    here 0 names

theorem files_eq_filter (walk : Walk) {location : Location} {entries : List (Name × FileTree)}
    (h : walk.tree.nodeAt? location = some (.directory entries)) :
    walk.files location = ((FileTree.directory entries).fileLocations.filter
      (walk.listsFromRoot location)).map walk.root.descend := by
  simp only [Walk.files, h]
  rw [filesBelow_eq_filter _ rfl]
  rfl

end Walk

/-! ## Roots -/

namespace FileTree

theorem find_eq_ok_iff {tree : FileTree} {session : Session} {path : Path} {node : FileTree} :
    tree.find session path = .ok node ↔
      ∃ location, tree.locate session path = .ok location ∧
        tree.nodeAt? location = some node := by
  unfold find
  cases tree.locate session path with
  | error reason => simp [bind, Except.bind]
  | ok location =>
      cases hnode : tree.nodeAt? location with
      | none => simp [bind, Except.bind, throw, throwThe, MonadExceptOf.throw, hnode]
      | some found => simp [bind, Except.bind, pure, Except.pure, hnode]

theorem collect_nil (tree : FileTree) (session : Session) (options : WalkOptions) :
    tree.collect session options [] = .ok [] := rfl

theorem collect_cons {tree : FileTree} {session : Session} {options : WalkOptions} {root : Path}
    {roots files more : List Path} (hfiles : tree.filesOfRoot session options root = .ok files)
    (hmore : tree.collect session options roots = .ok more) :
    tree.collect session options (root :: roots) = .ok (files ++ more) := by
  unfold collect at hmore ⊢
  rw [List.mapM_cons, hfiles]
  cases hroots : roots.mapM (tree.filesOfRoot session options) with
  | error failure => simp [hroots, bind, Except.bind] at hmore
  | ok found =>
      simp only [hroots, bind, Except.bind, pure, Except.pure, Except.ok.injEq] at hmore ⊢
      rw [← hmore, List.flatten_cons]

theorem collect_singleton {tree : FileTree} {session : Session} {options : WalkOptions}
    {root : Path} {files : List Path} (h : tree.filesOfRoot session options root = .ok files) :
    tree.collect session options [root] = .ok files := by
  rw [collect_cons h (collect_nil tree session options), List.append_nil]

theorem filesOfRoot_file {tree : FileTree} {session : Session} {root : Path}
    {content : ByteArray} (h : tree.find session root = .ok (.file content))
    (options : WalkOptions) : tree.filesOfRoot session options root = .ok [root] := by
  obtain ⟨location, hlocate, hnode⟩ := find_eq_ok_iff.mp h
  simp only [filesOfRoot, hlocate, hnode]

/-- Every walk from a directory chooses among the same files of the directory. -/
theorem filesOfRoot_directory {tree : FileTree} {session : Session} {root : Path}
    {entries : List (Name × FileTree)}
    (h : tree.find session root = .ok (.directory entries)) :
    ∃ location, ∀ options, tree.filesOfRoot session options root =
      .ok (((directory entries).fileLocations.filter
        (Walk.listsFromRoot ⟨tree, session, options, root⟩ location)).map root.descend) := by
  obtain ⟨location, hlocate, hnode⟩ := find_eq_ok_iff.mp h
  refine ⟨location, ?_⟩
  intro options
  simp only [filesOfRoot, hlocate, hnode]
  rw [Walk.files_eq_filter ⟨tree, session, options, root⟩ hnode]

end FileTree

end Marginalia
