import Mathlib
import Marginalia.Proofs.Listing

/-! # A walk that asks for everything

With everything asked for, a walk finds exactly the regular files below its root
whose language is known and that do not belong to the metadata of a repository.
Each is found once, and they come in the order of their names.
-/

namespace Marginalia

namespace WalkOptions

/-- Everything counts, at any depth, under any name, in any language. -/
def everything (workers : Nat) : WalkOptions :=
  ⟨true, none, [], none, workers⟩

end WalkOptions

/-- Without globs only the metadata of a repository is passed over. -/
theorem Path.spares_nil_iff (path : Path) {names : Location} (h : ∀ name ∈ names, IsName name) :
    path.spares [] names = true ↔ (ofString ".git").bytes ∉ names := by
  have hgit : ∀ name ∈ names, (!isRejected [] ⟨name⟩) = true ↔
      name ≠ (ofString ".git").bytes := by
    intro name hname
    simp [isRejected_nil (h name hname)]
  rw [spares_eq_all _ _ h, List.all_eq_true]
  constructor
  · intro hall hmem
    exact (hgit _ hmem).mp (hall _ hmem) rfl
  · intro hnot name hname
    exact (hgit name hname).mpr fun heq => hnot (heq ▸ hname)

namespace FileTree

theorem WellFormed.find {tree node : FileTree} (h : tree.WellFormed) {session : Session}
    {path : Path} (hfind : tree.find session path = .ok node) : node.WellFormed := by
  obtain ⟨location, -, hnode⟩ := find_eq_ok_iff.mp hfind
  exact h.nodeAt? hnode

/-- The rules for names and languages are all that is left of the choice. -/
theorem WellFormed.listsFromRoot_everything {tree : FileTree} {session : Session} {root : Path}
    {entries : List (Name × FileTree)} (h : (FileTree.directory entries).WellFormed)
    (here : Location) (workers : Nat) {names : Location}
    (hmem : names ∈ (FileTree.directory entries).fileLocations) :
    Walk.listsFromRoot ⟨tree, session, .everything workers, root⟩ here names = true ↔
      (Language.ofPath? (root.child (Path.join names))).isSome ∧
        (Path.ofString ".git").bytes ∉ names := by
  have hspares : root.spares (WalkOptions.everything workers).globs names = true ↔
      (Path.ofString ".git").bytes ∉ names :=
    root.spares_nil_iff (h.isName_of_mem_fileLocations hmem)
  have hadmits : (WalkOptions.everything workers).admits (root.descend names) =
      (Language.ofPath? (root.child (Path.join names))).isSome := by
    rw [h.descend_eq hmem, WalkOptions.admits]
    cases Language.ofPath? (root.child (Path.join names)) <;> rfl
  rw [Walk.listsFromRoot, Walk.lists, Walk.sees_of_all rfl, hadmits, Bool.and_true,
    Bool.and_eq_true, Bool.and_eq_true, hspares]
  constructor
  · rintro ⟨⟨-, hgit⟩, hlanguage⟩
    exact ⟨hlanguage, hgit⟩
  · rintro ⟨hlanguage, hgit⟩
    exact ⟨⟨rfl, hgit⟩, hlanguage⟩

/-- With everything asked for, a walk from a directory is exact and ordered. It
finds exactly the regular files strictly below the directory whose language is
known and that have no repository metadata on the way to them. Each is found
once, under the path of the directory with its own names behind it, and the
files come in the lexicographic order of their names. -/
theorem collect_everything {tree : FileTree} (hwell : tree.WellFormed) {session : Session}
    {root : Path} {entries : List (Name × FileTree)}
    (hroot : tree.find session root = .ok (.directory entries)) (workers : Nat) :
    ∃ found : List Location,
      tree.collect session (.everything workers) [root] =
        .ok (found.map fun names => root.child (Path.join names)) ∧
      (∀ names, names ∈ found ↔ names ≠ [] ∧
        (∃ content, (directory entries).nodeAt? names = some (.file content)) ∧
        (Language.ofPath? (root.child (Path.join names))).isSome ∧
        (Path.ofString ".git").bytes ∉ names) ∧
      found.Pairwise (· < ·) ∧
      (found.map fun names => root.child (Path.join names)).Nodup := by
  have hnode := hwell.find hroot
  obtain ⟨here, hfiles⟩ := filesOfRoot_directory hroot
  let chosen := Walk.listsFromRoot ⟨tree, session, .everything workers, root⟩ here
  have hpath : ∀ names ∈ (directory entries).fileLocations.filter chosen,
      root.descend names = root.child (Path.join names) := by
    intro names hmem
    exact hnode.descend_eq (List.mem_filter.mp hmem).1 root
  have hsorted : ((directory entries).fileLocations.filter chosen).Pairwise (· < ·) :=
    hnode.pairwise_fileLocations.filter chosen
  refine ⟨(directory entries).fileLocations.filter chosen, ?_, ?_, hsorted, ?_⟩
  · rw [collect_singleton (hfiles (.everything workers)), List.map_congr_left hpath]
  · intro names
    rw [List.mem_filter, hnode.mem_fileLocations_iff]
    constructor
    · rintro ⟨hfile, hchosen⟩
      have hmem := hnode.mem_fileLocations_iff.mpr hfile
      exact ⟨ne_nil_of_mem_fileLocations hmem, hfile,
        (hnode.listsFromRoot_everything here workers hmem).mp hchosen⟩
    · rintro ⟨-, hfile, hchosen⟩
      have hmem := hnode.mem_fileLocations_iff.mpr hfile
      exact ⟨hfile, (hnode.listsFromRoot_everything here workers hmem).mpr hchosen⟩
  · rw [← List.map_congr_left hpath]
    apply List.pairwise_map.mpr
    apply hsorted.imp_of_mem
    intro first second hfirst hsecond hlt heq
    have hsame := hnode.descend_inj (List.mem_filter.mp hfirst).1 (List.mem_filter.mp hsecond).1 heq
    exact List.lt_irrefl _ (hsame ▸ hlt)

/-- An entry of a directory. -/
def entry (name : String) (node : FileTree) : Name × FileTree :=
  ((Path.ofString name).bytes, node)

/-- A file with some text in it. -/
def ofText (text : String) : FileTree :=
  .file text.toUTF8

def sampleSources : List (Name × FileTree) :=
  [entry "b.c" (ofText "// b"), entry ".git" (.directory [entry "x.c" (ofText "")]),
    entry "a" (.directory [entry "z.go" (ofText ""), entry ".h.c" (ofText "")]),
    entry "l.c" (.link (.ofString "b.c"))]

/-- A project with sources, a link to one of them, and rules that ignore some of
the sources and keep a hidden one. -/
def sampleProject : FileTree :=
  .directory [entry ".gitignore" (ofText "*.go\n!.h*\n"), entry "src" (.directory sampleSources)]

theorem wellFormed_sampleProject : sampleProject.WellFormed := by
  have hfile (text : String) : (ofText text).WellFormed := .file _
  have hsources : (directory sampleSources).WellFormed := by
    refine .directory (by decide +kernel) (by decide +kernel) ?_
    simp only [sampleSources, entry, List.forall_mem_cons]
    refine ⟨hfile _, ?_, ?_, .link _, by simp⟩
    · exact .directory (by decide +kernel) (by decide +kernel) (by simp [hfile])
    · exact .directory (by decide +kernel) (by decide +kernel) (by simp [hfile])
  refine .directory (by decide +kernel) (by decide +kernel) ?_
  simp only [entry, List.forall_mem_cons]
  exact ⟨hfile _, hsources, by simp⟩

theorem find_sampleProject :
    sampleProject.find .atTop (.ofString "src/") = .ok (.directory sampleSources) := by
  cbv

theorem collect_everything_sampleProject :
    sampleProject.WellFormed ∧
      sampleProject.find .atTop (.ofString "src/") = .ok (.directory sampleSources) ∧
      ∃ found : List Location,
        (found.map fun names => (Path.ofString "src/").child (Path.join names)) =
          [.ofString "src/a/.h.c", .ofString "src/a/z.go", .ofString "src/b.c"] ∧
        found.Pairwise (· < ·) := by
  have hvalue : sampleProject.collect .atTop (.everything 0) [.ofString "src/"] =
      .ok [.ofString "src/a/.h.c", .ofString "src/a/z.go", .ofString "src/b.c"] := by
    cbv
  obtain ⟨found, hcollect, -, hsorted, -⟩ :=
    collect_everything wellFormed_sampleProject find_sampleProject 0
  exact ⟨wellFormed_sampleProject, find_sampleProject, found,
    Except.ok.inj (hcollect.symm.trans hvalue), hsorted⟩

end FileTree

end Marginalia
