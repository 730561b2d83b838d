import Marginalia.Proofs.RegularFiles

/-! # The outline of a tree

The outline of a tree has its names, directories and links, but not the contents
of its files. Where a path leads and which files there are can be told from the
outline alone. What is in a file is told by its location, and putting something
into one file changes neither the outline nor the contents of the other files.
-/

namespace Marginalia

namespace FileTree

mutual

/-- The tree with all its files empty. -/
def outline : FileTree → FileTree
  | .file _ => .file ByteArray.empty
  | .link target => .link target
  | .directory entries => .directory (outlineEntries entries)

/-- The outlines of some entries, under the same names. -/
def outlineEntries : List (Name × FileTree) → List (Name × FileTree)
  | [] => []
  | (name, node) :: rest => (name, node.outline) :: outlineEntries rest

end

@[simp] theorem outline_file (content : ByteArray) :
    (file content).outline = .file ByteArray.empty := by
  rw [outline]

@[simp] theorem outline_link (target : Path) : (link target).outline = .link target := by
  rw [outline]

@[simp] theorem outline_directory (entries : List (Name × FileTree)) :
    (directory entries).outline = .directory (outlineEntries entries) := by
  rw [outline]

/-- Two nodes with one outline are of one kind. -/
theorem outline_eq_cases {node changed : FileTree} (h : changed.outline = node.outline) :
    (∃ old new, node = .file old ∧ changed = .file new) ∨
      (∃ target, node = .link target ∧ changed = .link target) ∨
      ∃ entries changes, node = .directory entries ∧ changed = .directory changes := by
  cases node <;> cases changed <;> simp_all

/-! ## Nodes and paths -/

theorem lookup_outlineEntries (entries : List (Name × FileTree)) (name : Name) :
    (outlineEntries entries).lookup name = (entries.lookup name).map outline := by
  induction entries with
  | nil => rw [outlineEntries]; rfl
  | cons entry entries ih =>
      obtain ⟨other, node⟩ := entry
      rw [outlineEntries, List.lookup_cons, List.lookup_cons]
      cases name == other with
      | true => rfl
      | false => exact ih

theorem entry?_outline (tree : FileTree) (name : Name) :
    tree.outline.entry? name = (tree.entry? name).map outline := by
  cases tree with
  | file content => rw [outline_file]; rfl
  | link target => rw [outline_link]; rfl
  | directory entries => rw [outline_directory]; exact lookup_outlineEntries entries name

theorem nodeAt?_outline (tree : FileTree) (location : Location) :
    tree.outline.nodeAt? location = (tree.nodeAt? location).map outline := by
  induction location generalizing tree with
  | nil => rfl
  | cons name rest ih =>
      rw [nodeAt?_cons, nodeAt?_cons, entry?_outline]
      cases tree.entry? name with
      | none => rfl
      | some node => exact ih node

/-- A node in the outline is a directory just where there is one in the tree. -/
theorem nodeAt?_outline_ne_directory {tree : FileTree} {location : Location}
    (h : ∀ entries, tree.nodeAt? location ≠ some (.directory entries))
    (entries : List (Name × FileTree)) :
    tree.outline.nodeAt? location ≠ some (.directory entries) := by
  rw [nodeAt?_outline]
  intro hnode
  obtain ⟨node, hfound, houtline⟩ := Option.map_eq_some_iff.mp hnode
  cases node with
  | file content => simp at houtline
  | link target => simp at houtline
  | directory found => exact h found hfound

theorem follow_of_not_directory {tree : FileTree} {here : Location}
    (h : ∀ entries, tree.nodeAt? here ≠ some (.directory entries)) (links : Nat) (piece : Name)
    (rest : List Name) : tree.follow links here (piece :: rest) = .error .notDirectory := by
  rw [follow]
  split
  next entries hnode => exact absurd hnode (h entries)
  next => rfl

/-- Contents do not matter for where a path leads. -/
theorem follow_outline (tree : FileTree) (links : Nat) (here : Location) (pieces : List Name) :
    tree.outline.follow links here pieces = tree.follow links here pieces := by
  fun_induction follow tree links here pieces with
  | case1 links here => rw [follow]
  | case2 links here piece rest entries hnode hpiece ih =>
      simp [follow, nodeAt?_outline, hnode, hpiece, ih]
  | case3 links here rest entries hnode hpiece ih =>
      simp [follow, nodeAt?_outline, hnode, ih]
  | case4 links here piece rest entries hnode hpiece hup hentry =>
      simp [follow, nodeAt?_outline, hnode, hpiece, hup, lookup_outlineEntries, hentry]
  | case5 here piece rest entries hnode hpiece hup target hentry =>
      simp [follow, nodeAt?_outline, hnode, hpiece, hup, lookup_outlineEntries, hentry]
  | case6 here piece rest entries hnode hpiece hup target hentry fewer ih =>
      simp [follow, nodeAt?_outline, hnode, hpiece, hup, lookup_outlineEntries, hentry, ih]
  | case7 links here piece rest entries hnode hpiece hup node hlink hentry ih =>
      cases node with
      | file content =>
          simp [follow, nodeAt?_outline, hnode, hpiece, hup, lookup_outlineEntries, hentry, ih]
      | link target => exact absurd rfl (hlink target)
      | directory found =>
          simp [follow, nodeAt?_outline, hnode, hpiece, hup, lookup_outlineEntries, hentry, ih]
  | case8 links here piece rest hnode =>
      exact follow_of_not_directory (nodeAt?_outline_ne_directory hnode) links piece rest

theorem locate_outline (tree : FileTree) (session : Session) (path : Path) :
    tree.outline.locate session path = tree.locate session path := by
  rw [locate, locate, follow_outline]

theorem find_outline (tree : FileTree) (session : Session) (path : Path) :
    tree.outline.find session path = (tree.find session path).map outline := by
  rw [find, find, locate_outline]
  cases tree.locate session path with
  | error reason => rfl
  | ok location =>
      simp only [bind, Except.bind, nodeAt?_outline]
      cases tree.nodeAt? location with
      | none => rfl
      | some node => rfl

/-- Contents do not matter for which files there are. -/
theorem fileLocations_outline (tree : FileTree) :
    tree.outline.fileLocations = tree.fileLocations := by
  induction tree with
  | file content => rw [outline_file, fileLocations, fileLocations]
  | link target => rw [outline_link]
  | directory entries ih =>
      have hentries : entryLocations (outlineEntries entries) = entryLocations entries := by
        induction entries with
        | nil => rw [outlineEntries]
        | cons entry entries ihentries =>
            obtain ⟨hfirst, hrest⟩ := List.forall_mem_cons.mp ih
            rw [outlineEntries, entryLocations, entryLocations, hfirst, ihentries hrest]
      rw [outline_directory, fileLocations, fileLocations, hentries]

/-! ## Contents -/

theorem lookup_cons_of_ne {name other : Name} (h : name ≠ other) (node : FileTree)
    (entries : List (Name × FileTree)) :
    ((other, node) :: entries).lookup name = entries.lookup name := by
  rw [List.lookup_cons, beq_false_of_ne h]

theorem mem_of_lookup {entries : List (Name × FileTree)} {name : Name} {node : FileTree}
    (h : entries.lookup name = some node) : (name, node) ∈ entries := by
  obtain ⟨before, after, rfl, -⟩ := List.lookup_eq_some_iff.mp h
  exact List.mem_append_right before List.mem_cons_self

theorem lookup_putEntry (name other : Name) (node : FileTree)
    (entries : List (Name × FileTree)) :
    (putEntry name node entries).lookup other =
      if other = name then some node else entries.lookup other := by
  induction entries with
  | nil =>
      rw [putEntry]
      by_cases hother : other = name
      · rw [if_pos hother, hother, List.lookup_cons_self]
      · rw [if_neg hother, lookup_cons_of_ne hother]
  | cons entry entries ih =>
      obtain ⟨first, old⟩ := entry
      rw [putEntry]
      by_cases hfirst : first = name
      · subst hfirst
        rw [if_pos rfl]
        by_cases hother : other = first
        · rw [if_pos hother, hother, List.lookup_cons_self]
        · rw [if_neg hother, lookup_cons_of_ne hother, lookup_cons_of_ne hother]
      · rw [if_neg hfirst]
        by_cases hother : other = first
        · rw [if_neg (hother ▸ hfirst), hother, List.lookup_cons_self, List.lookup_cons_self]
        · rw [lookup_cons_of_ne hother, lookup_cons_of_ne hother, ih]

theorem entry?_put (node tree : FileTree) (name other : Name) (rest : Location) :
    entry? other (put node (name :: rest) tree) =
      if other = name then some (put node rest ((tree.entry? name).getD (.directory [])))
      else tree.entry? other := by
  cases tree with
  | file content => exact lookup_putEntry name other _ []
  | link target => exact lookup_putEntry name other _ []
  | directory entries => exact lookup_putEntry name other _ entries

theorem outlineEntries_putEntry {name : Name} {node changed : FileTree}
    {entries : List (Name × FileTree)} (hentry : entries.lookup name = some node)
    (houtline : changed.outline = node.outline) :
    outlineEntries (putEntry name changed entries) = outlineEntries entries := by
  induction entries with
  | nil => exact absurd hentry (Option.some_ne_none _).symm
  | cons entry entries ih =>
      obtain ⟨first, old⟩ := entry
      rw [putEntry]
      by_cases hfirst : first = name
      · subst hfirst
        rw [List.lookup_cons_self, Option.some.injEq] at hentry
        rw [if_pos rfl, outlineEntries, outlineEntries, houtline, hentry]
      · rw [lookup_cons_of_ne (Ne.symm hfirst)] at hentry
        rw [if_neg hfirst, outlineEntries, outlineEntries, ih hentry]

/-- Two trees that differ in nothing but the content of the file at one place. -/
structure AgreesExcept (place : Location) (tree changed : FileTree) : Prop where
  outline_eq : changed.outline = tree.outline
  content_eq : ∀ location, location ≠ place →
    changed.contentAt? location = tree.contentAt? location

theorem outline_put {tree : FileTree} {place : Location} {old : ByteArray}
    (hfile : tree.nodeAt? place = some (.file old)) (new : ByteArray) :
    (put (.file new) place tree).outline = tree.outline := by
  induction place generalizing tree with
  | nil =>
      obtain rfl := Option.some.inj hfile
      rw [put, outline_file, outline_file]
  | cons name rest ih =>
      rw [nodeAt?_cons, Option.bind_eq_some_iff] at hfile
      obtain ⟨node, hentry, hfile⟩ := hfile
      cases tree with
      | file content => exact absurd hentry (Option.some_ne_none _).symm
      | link target => exact absurd hentry (Option.some_ne_none _).symm
      | directory entries =>
          have hlookup : entries.lookup name = some node := hentry
          simp only [put, hlookup, Option.getD_some, outline_directory]
          rw [outlineEntries_putEntry hlookup (ih hfile)]

theorem contentAt?_put {tree : FileTree} {place : Location} {old : ByteArray}
    (hfile : tree.nodeAt? place = some (.file old)) (new : ByteArray) {location : Location}
    (hother : location ≠ place) :
    (put (.file new) place tree).contentAt? location = tree.contentAt? location := by
  unfold contentAt?
  induction place generalizing tree location with
  | nil =>
      -- Below a file there is nothing, whatever its content.
      obtain ⟨name, rest, rfl⟩ := List.exists_cons_of_ne_nil hother
      obtain rfl := Option.some.inj hfile
      rfl
  | cons name rest ih =>
      rw [nodeAt?_cons, Option.bind_eq_some_iff] at hfile
      obtain ⟨node, hentry, hfile⟩ := hfile
      cases location with
      | nil =>
          cases tree with
          | file content => exact absurd hentry (Option.some_ne_none _).symm
          | link target => exact absurd hentry (Option.some_ne_none _).symm
          | directory entries => rfl
      | cons first more =>
          rw [nodeAt?_cons, nodeAt?_cons, entry?_put]
          by_cases hfirst : first = name
          · subst hfirst
            have hmore : more ≠ rest := fun heq => hother (heq ▸ rfl)
            simpa only [if_pos, hentry, Option.getD_some, Option.bind_some] using ih hfile hmore
          · rw [if_neg hfirst]

/-- Putting something into one file changes that file and nothing else. -/
theorem agreesExcept_put {tree : FileTree} {place : Location} {old : ByteArray}
    (hfile : tree.nodeAt? place = some (.file old)) (new : ByteArray) :
    AgreesExcept place tree (put (.file new) place tree) :=
  ⟨outline_put hfile new, fun _ hother => contentAt?_put hfile new hother⟩

end FileTree

end Marginalia
