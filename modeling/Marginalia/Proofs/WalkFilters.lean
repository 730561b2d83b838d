import Marginalia.Proofs.WalkOrder

/-! # Options of a walk as filters

Depth, names and language narrow a walk down, each on its own: the files that are
found are those found without these options, less the ones that an option leaves
out. Hidden and ignored entries only take files away, whatever the ignore files
say, and never a file that is a root itself.
-/

namespace Marginalia

namespace WalkOptions

/-- The options without a limit on depth, names or language. -/
def unlimited (options : WalkOptions) : WalkOptions :=
  { options with maxDepth := none, globs := [], language := none }

/-- Whether the limits leave a path below a root in: it is not too deep, no name
below the root is passed over, and its language is the one asked for. -/
def keeps (options : WalkOptions) (root path : Path) : Bool :=
  options.maxDepth.all ((root.namesBelow path).length ≤ ·) &&
    ((root.namesBelow path).all fun name => !Path.isRejected options.globs ⟨name⟩) &&
    options.language.all fun language => Language.ofPath? path = some language

theorem admits_eq (options : WalkOptions) (path : Path) :
    options.admits path =
      ((options.language.all fun language => Language.ofPath? path = some language) &&
        options.unlimited.admits path) := by
  unfold admits unlimited
  cases Language.ofPath? path with
  | none => simp
  | some found =>
      cases options.language with
      | none => simp
      | some wanted => simp [eq_comm]

end WalkOptions

namespace Path

/-- Globs only add to the names that are passed over. -/
theorem isRejected_of_nil {path : Path} (h : path.isRejected [] = true) (globs : List String) :
    path.isRejected globs = true := by
  simp only [isRejected, List.any_nil, Bool.or_false] at h ⊢
  rw [h, Bool.true_or]

theorem spares_eq_all_and (globs : List String) (path : Path) {names : Location}
    (h : ∀ name ∈ names, IsName name) :
    path.spares globs names =
      ((names.all fun name => !isRejected globs ⟨name⟩) && path.spares [] names) := by
  rw [spares_eq_all _ _ h, spares_eq_all _ _ h]
  cases hall : names.all fun name => !isRejected globs ⟨name⟩ with
  | false => rfl
  | true =>
      symm
      rw [Bool.true_and, List.all_eq_true]
      intro name hname
      have hspared := List.all_eq_true.mp hall name hname
      simp only [Bool.not_eq_true'] at hspared ⊢
      apply Bool.eq_false_iff.mpr
      intro hnil
      exact absurd (isRejected_of_nil hnil globs) (Bool.eq_false_iff.mp hspared)

end Path

namespace Walk

/-- What is hidden does not depend on the limits. -/
theorem sees_unlimited (tree : FileTree) (session : Session) (options : WalkOptions) (root : Path)
    (levels : List RuleLevel) (path : Path) (here names : Location) :
    sees ⟨tree, session, options.unlimited, root⟩ levels path here names =
      sees ⟨tree, session, options, root⟩ levels path here names := by
  induction names generalizing levels path here with
  | nil => rfl
  | cons name rest ih =>
      rw [sees, sees, ih]
      rfl

end Walk

namespace FileTree

theorem WellFormed.listsFromRoot_eq {tree : FileTree} {session : Session} {root : Path}
    {entries : List (Name × FileTree)} (h : (FileTree.directory entries).WellFormed)
    (options : WalkOptions) (here : Location) {names : Location}
    (hmem : names ∈ (FileTree.directory entries).fileLocations) :
    Walk.listsFromRoot ⟨tree, session, options, root⟩ here names =
      (options.keeps root (root.descend names) &&
        Walk.listsFromRoot ⟨tree, session, options.unlimited, root⟩ here names) := by
  have hspares : root.spares options.globs names =
      ((names.all fun name => !Path.isRejected options.globs ⟨name⟩) &&
        root.spares options.unlimited.globs names) :=
    root.spares_eq_all_and options.globs (h.isName_of_mem_fileLocations hmem)
  have hdepth : options.unlimited.maxDepth.all (names.length ≤ ·) = true := rfl
  have hlevels : options.unlimited.all = options.all := rfl
  simp only [Walk.listsFromRoot, Walk.lists, WalkOptions.keeps, h.namesBelow_descend hmem,
    Walk.sees_unlimited, hdepth, hlevels, hspares, options.admits_eq (root.descend names),
    Nat.zero_add, Bool.true_and]
  ac_rfl

/-- The options of a walk act as filters, each on its own. With limits, a walk from
a directory finds what it finds without them, in the same order, less the paths
that are too deep, that have a name below the directory that is passed over, or
whose language is not the one asked for. -/
theorem collect_eq_filter {tree : FileTree} (hwell : tree.WellFormed) {session : Session}
    {root : Path} {entries : List (Name × FileTree)}
    (hroot : tree.find session root = .ok (.directory entries)) (options : WalkOptions) :
    ∃ files, tree.collect session options.unlimited [root] = .ok files ∧
      tree.collect session options [root] = .ok (files.filter (options.keeps root)) := by
  have hnode := hwell.find hroot
  obtain ⟨here, hfiles⟩ := filesOfRoot_directory hroot
  refine ⟨_, collect_singleton (hfiles _), ?_⟩
  rw [collect_singleton (hfiles _), List.filter_map, List.filter_filter]
  congr 2
  apply List.filter_congr
  intro names hmem
  exact hnode.listsFromRoot_eq options here hmem

/-- Of the two sources that are not ignored, a glob leaves one out. -/
theorem collect_eq_filter_sampleProject :
    sampleProject.WellFormed ∧
      sampleProject.find .atTop (.ofString "src/") = .ok (.directory sampleSources) ∧
      sampleProject.collect .atTop ⟨false, none, [], none, 0⟩ [.ofString "src/"] =
        .ok [.ofString "src/a/.h.c", .ofString "src/b.c"] ∧
      sampleProject.collect .atTop ⟨false, some 2, ["b*"], some .c, 0⟩ [.ofString "src/"] =
        .ok [.ofString "src/a/.h.c"] := by
  have hvalue : sampleProject.collect .atTop ⟨false, none, [], none, 0⟩ [.ofString "src/"] =
      .ok [.ofString "src/a/.h.c", .ofString "src/b.c"] := by
    cbv
  have hkept : [Path.ofString "src/a/.h.c", .ofString "src/b.c"].filter
      (WalkOptions.keeps ⟨false, some 2, ["b*"], some .c, 0⟩ (.ofString "src/")) =
        [.ofString "src/a/.h.c"] := by
    cbv
  obtain ⟨files, hfiles, hfilter⟩ := collect_eq_filter wellFormed_sampleProject find_sampleProject
    ⟨false, some 2, ["b*"], some .c, 0⟩
  obtain rfl := Except.ok.inj (hfiles.symm.trans hvalue)
  exact ⟨wellFormed_sampleProject, find_sampleProject, hvalue, hkept ▸ hfilter⟩

/-! ## Hidden and ignored entries -/

/-- A file that is listed with hidden and ignored entries left out is listed with
everything asked for. -/
theorem listsFromRoot_all {tree : FileTree} {session : Session} {options : WalkOptions}
    {root : Path} {here names : Location}
    (h : Walk.listsFromRoot ⟨tree, session, { options with all := false }, root⟩ here names =
      true) :
    Walk.listsFromRoot ⟨tree, session, { options with all := true }, root⟩ here names = true := by
  simp only [Walk.listsFromRoot, Walk.lists, Bool.and_eq_true] at h ⊢
  obtain ⟨⟨⟨hdepth, hspares⟩, -⟩, hadmits⟩ := h
  exact ⟨⟨⟨hdepth, hspares⟩, Walk.sees_of_all rfl _ _ _ _⟩, hadmits⟩

theorem filesOfRoot_sublist {tree : FileTree} {session : Session} {root : Path}
    (options : WalkOptions)
    (h : (∃ content, tree.find session root = .ok (.file content)) ∨
      ∃ entries, tree.find session root = .ok (.directory entries)) :
    ∃ visible every, tree.filesOfRoot session { options with all := false } root = .ok visible ∧
      tree.filesOfRoot session { options with all := true } root = .ok every ∧
      visible.Sublist every := by
  rcases h with ⟨content, hfile⟩ | ⟨entries, hdirectory⟩
  · exact ⟨[root], [root], filesOfRoot_file hfile _, filesOfRoot_file hfile _, .refl _⟩
  · obtain ⟨here, hfiles⟩ := filesOfRoot_directory hdirectory
    refine ⟨_, _, hfiles _, hfiles _, ?_⟩
    apply List.Sublist.map
    apply List.monotone_filter_right
    intro names
    exact listsFromRoot_all

/-- Ignore rules only remove. Whatever the ignore files say, the files found with
hidden and ignored entries left out are some of the files found with everything
asked for, in the same order. A root that is itself a file is always found. -/
theorem collect_sublist {tree : FileTree} {session : Session} {roots : List Path}
    (options : WalkOptions)
    (h : ∀ root ∈ roots, (∃ content, tree.find session root = .ok (.file content)) ∨
      ∃ entries, tree.find session root = .ok (.directory entries)) :
    ∃ visible every, tree.collect session { options with all := false } roots = .ok visible ∧
      tree.collect session { options with all := true } roots = .ok every ∧
      visible.Sublist every ∧
      ∀ root ∈ roots, ∀ content, tree.find session root = .ok (.file content) →
        root ∈ visible ∧ root ∈ every := by
  induction roots with
  | nil => exact ⟨[], [], rfl, rfl, .slnil, fun _ hroot => absurd hroot List.not_mem_nil⟩
  | cons root roots ih =>
      obtain ⟨hroot, hroots⟩ := List.forall_mem_cons.mp h
      obtain ⟨first, all, hfirst, hall, hsub⟩ := filesOfRoot_sublist options hroot
      obtain ⟨visible, every, hvisible, hevery, hrest, hfiles⟩ := ih hroots
      refine ⟨first ++ visible, all ++ every, collect_cons hfirst hvisible,
        collect_cons hall hevery, hsub.append hrest, ?_⟩
      intro other hother content hcontent
      rcases List.mem_cons.mp hother with rfl | hlater
      · rw [filesOfRoot_file hcontent] at hfirst hall
        obtain rfl := Except.ok.inj hfirst
        obtain rfl := Except.ok.inj hall
        exact ⟨List.mem_cons_self, List.mem_cons_self⟩
      · obtain ⟨hleft, hright⟩ := hfiles other hlater content hcontent
        exact ⟨List.mem_append_right _ hleft, List.mem_append_right _ hright⟩

theorem collect_sublist_sampleProject :
    sampleProject.find .atTop (.ofString "src/") = .ok (.directory sampleSources) ∧
      sampleProject.find .atTop (.ofString "src/l.c") = .ok (ofText "// b") ∧
      ∃ visible every,
        sampleProject.collect .atTop .default [.ofString "src/", .ofString "src/l.c"] =
          .ok visible ∧
        sampleProject.collect .atTop (.everything 0) [.ofString "src/", .ofString "src/l.c"] =
          .ok every ∧
        visible.Sublist every ∧ .ofString "src/l.c" ∈ visible := by
  have hfile : sampleProject.find .atTop (.ofString "src/l.c") = .ok (ofText "// b") := by
    cbv
  have hroots : ∀ root ∈ [Path.ofString "src/", .ofString "src/l.c"],
      (∃ content, sampleProject.find .atTop root = .ok (.file content)) ∨
        ∃ entries, sampleProject.find .atTop root = .ok (.directory entries) := by
    simp [find_sampleProject, hfile, ofText]
  obtain ⟨visible, every, hvisible, hevery, hsub, hfiles⟩ := collect_sublist .default hroots
  refine ⟨find_sampleProject, hfile, visible, every, hvisible, hevery, hsub, ?_⟩
  exact (hfiles _ (by simp) _ hfile).1

end FileTree

end Marginalia
