import Mathlib
import Marginalia.Proofs.FileResults

/-! # Files on their own

What a walk finds depends on names, directories and links, and on the files with
rules, those of the user among them. A file that no rules are taken from can hold
anything: its content decides its own result and no other. If everything is asked for,
this is so for every file.
-/

namespace Marginalia

namespace FileTree

/-! ## Files with rules -/

/-- Where a directory keeps rules. -/
def rulePlaces : List Location :=
  ruleFiles.map fun names => names.map fun name => (Path.ofString name).bytes

/-- The names on the way to a file are not those of a file with rules. -/
structure IsOrdinary (place : Location) : Prop where
  notGeneral : place.getLast? ≠ some (Path.ofString ".ignore").bytes
  notRepository : place.getLast? ≠ some (Path.ofString ".gitignore").bytes
  notMetadata : (Path.ofString ".git").bytes ∉ place

/-- Some directory takes rules from the file at a place, but through a link and not
under the names of the place itself. -/
def HoldsLinkedRules (tree : FileTree) (place : Location) : Prop :=
  ∃ directory, ∃ names ∈ rulePlaces,
    tree.follow linkLimit directory names = .ok place ∧ place ≠ directory ++ names

/-- The file at a place has a say in the rules of the user. It holds them, or it is a
configuration that is asked where they are, because none before it tells. -/
def HoldsUserRules (tree : FileTree) (session : Session) (place : Location) : Prop :=
  (∃ file, tree.excludesFile? session = some file ∧ tree.locate session file = .ok place) ∨
    ∃ earlier file later, session.configFiles = earlier ++ file :: later ∧
      (∀ other ∈ earlier, tree.excludesNamedBy? session other = none) ∧
      tree.locate session file = .ok place

/-- Rules are taken from the file at a place, links followed. -/
def HoldsRules (tree : FileTree) (session : Session) (place : Location) : Prop :=
  (∃ directory, ∃ names ∈ rulePlaces, tree.follow linkLimit directory names = .ok place) ∨
    tree.HoldsUserRules session place

theorem rulePlaces_cases {names : Location} (h : names ∈ rulePlaces) :
    names = [(Path.ofString ".ignore").bytes] ∨ names = [(Path.ofString ".gitignore").bytes] ∨
      names = [(Path.ofString ".git").bytes, (Path.ofString "info").bytes,
        (Path.ofString "exclude").bytes] := by
  simpa [rulePlaces, ruleFiles] using h

theorem not_isOrdinary_append {names : Location} (h : names ∈ rulePlaces) (directory : Location) :
    ¬ IsOrdinary (directory ++ names) := by
  rintro ⟨hgeneral, hrepository, hmetadata⟩
  rcases rulePlaces_cases h with rfl | rfl | rfl
  · exact hgeneral (by simp)
  · exact hrepository (by simp)
  · exact hmetadata (by simp)

theorem IsOrdinary.not_holdsRules {tree : FileTree} {session : Session} {place : Location}
    (h : IsOrdinary place) (hlinked : ¬ tree.HoldsLinkedRules place)
    (huser : ¬ tree.HoldsUserRules session place) : ¬ tree.HoldsRules session place := by
  rintro (⟨directory, names, hnames, hfollow⟩ | hholds)
  · by_cases hown : place = directory ++ names
    · exact not_isOrdinary_append hnames directory (hown ▸ h)
    · exact hlinked ⟨directory, names, hnames, hfollow, hown⟩
  · exact huser hholds

/-- The first answer is the same if everyone who is asked answers the same. Nobody is
asked once there is an answer. -/
theorem findSome?_eq_of_asked {files : List Path} {answer other : Path → Option Path}
    (h : ∀ earlier file later, files = earlier ++ file :: later →
      (∀ asked ∈ earlier, answer asked = none) → other file = answer file) :
    files.findSome? other = files.findSome? answer := by
  induction files with
  | nil => rfl
  | cons file files ih =>
      have hfirst := h [] file files rfl fun _ hmem => absurd hmem List.not_mem_nil
      rw [List.findSome?_cons, List.findSome?_cons, hfirst]
      cases hanswer : answer file with
      | some found => rfl
      | none =>
          apply ih
          rintro earlier next later rfl hnone
          exact h (file :: earlier) next later rfl (List.forall_mem_cons.mpr ⟨hanswer, hnone⟩)

namespace AgreesExcept

variable {place : Location} {tree changed : FileTree}

theorem follow_eq (h : AgreesExcept place tree changed) (links : Nat) (here : Location)
    (pieces : List Name) :
    changed.follow links here pieces = tree.follow links here pieces := by
  rw [← follow_outline, h.outline_eq, follow_outline]

theorem locate_eq (h : AgreesExcept place tree changed) (session : Session) (path : Path) :
    changed.locate session path = tree.locate session path := by
  rw [← locate_outline, h.outline_eq, locate_outline]

/-- What is found elsewhere has the same content. -/
theorem bind_contentAt?_eq (h : AgreesExcept place tree changed)
    {found : Except ReadFailure Location} (hfound : found ≠ .ok place) :
    found.toOption.bind changed.contentAt? = found.toOption.bind tree.contentAt? := by
  cases found with
  | error reason => rfl
  | ok location => exact h.content_eq location fun heq => hfound (heq ▸ rfl)

theorem rulesAt_eq (h : AgreesExcept place tree changed) {session : Session}
    (hrules : ¬ tree.HoldsRules session place) (location : Location) {names : List String}
    (hnames : (names.map fun name => (Path.ofString name).bytes) ∈ rulePlaces) :
    changed.rulesAt location names = tree.rulesAt location names := by
  rw [rulesAt, rulesAt, h.follow_eq, h.bind_contentAt?_eq]
  exact fun hfollow => hrules (.inl ⟨location, _, hnames, hfollow⟩)

theorem ruleLevel_eq (h : AgreesExcept place tree changed) {session : Session}
    (hrules : ¬ tree.HoldsRules session place) (base : RuleBase) (location : Location) :
    changed.ruleLevel base location = tree.ruleLevel base location := by
  have hplace : ∀ names ∈ ruleFiles,
      changed.rulesAt location names = tree.rulesAt location names := fun names hmem =>
    h.rulesAt_eq hrules location (List.mem_map_of_mem hmem)
  rw [ruleLevel, ruleLevel, hplace [".ignore"] (by simp [ruleFiles]),
    hplace [".gitignore"] (by simp [ruleFiles]),
    hplace [".git", "info", "exclude"] (by simp [ruleFiles])]

theorem contentOf?_eq (h : AgreesExcept place tree changed) {session : Session} {path : Path}
    (hpath : tree.locate session path ≠ .ok place) :
    changed.contentOf? session path = tree.contentOf? session path := by
  rw [contentOf?, contentOf?, h.locate_eq, h.bind_contentAt?_eq hpath]

/-- The configurations that are asked name the same excludes. -/
theorem excludesFile?_eq (h : AgreesExcept place tree changed) {session : Session}
    (hrules : ¬ tree.HoldsUserRules session place) :
    changed.excludesFile? session = tree.excludesFile? session := by
  rw [excludesFile?, excludesFile?]
  congr 1
  apply findSome?_eq_of_asked
  intro earlier file later hfiles hnone
  rw [excludesNamedBy?, excludesNamedBy?, h.contentOf?_eq]
  exact fun hlocate => hrules (.inr ⟨earlier, file, later, hfiles, hnone, hlocate⟩)

theorem userRules_eq (h : AgreesExcept place tree changed) {session : Session}
    (hrules : ¬ tree.HoldsUserRules session place) :
    changed.userRules session = tree.userRules session := by
  rw [userRules, userRules, h.excludesFile?_eq hrules]
  cases hfile : tree.excludesFile? session with
  | none => rfl
  | some file =>
      rw [Option.bind_some, Option.bind_some, h.contentOf?_eq]
      exact fun hlocate => hrules (.inl ⟨file, hfile, hlocate⟩)

theorem levelsAbove_eq (h : AgreesExcept place tree changed) {session : Session}
    (hrules : ¬ tree.HoldsRules session place) (location : Location) :
    changed.levelsAbove session location = tree.levelsAbove session location := by
  have huser := h.userRules_eq (not_or.mp hrules).2
  simp only [levelsAbove, userLevel, h.ruleLevel_eq hrules, huser]

/-! ## Walks and reading -/

theorem sees_eq (h : AgreesExcept place tree changed) {session : Session}
    (hrules : ¬ tree.HoldsRules session place) (options : WalkOptions) (root : Path)
    (levels : List RuleLevel) (path : Path) (here names : Location) :
    Walk.sees ⟨changed, session, options, root⟩ levels path here names =
      Walk.sees ⟨tree, session, options, root⟩ levels path here names := by
  induction names generalizing levels path here with
  | nil => rfl
  | cons name rest ih =>
      have henter : Walk.enter ⟨changed, session, options, root⟩ levels path here =
          Walk.enter ⟨tree, session, options, root⟩ levels path here := by
        rw [Walk.enter, Walk.enter, h.ruleLevel_eq hrules]
      rw [Walk.sees, Walk.sees, henter, ih]
      rfl

/-- Rules do not count if everything is asked for. -/
theorem listsFromRoot_eq (h : AgreesExcept place tree changed) {session : Session}
    {options : WalkOptions} (hrules : options.all = true ∨ ¬ tree.HoldsRules session place)
    (root : Path) (here : Location) :
    Walk.listsFromRoot ⟨changed, session, options, root⟩ here =
      Walk.listsFromRoot ⟨tree, session, options, root⟩ here := by
  funext names
  rw [Walk.listsFromRoot, Walk.listsFromRoot, Walk.lists, Walk.lists]
  rcases hrules with hall | hrules
  · rw [Walk.sees_of_all hall, Walk.sees_of_all hall]
  · rw [h.sees_eq hrules, h.levelsAbove_eq hrules]

theorem outline_nodeAt?_eq (h : AgreesExcept place tree changed) (location : Location) :
    (changed.nodeAt? location).map outline = (tree.nodeAt? location).map outline := by
  rw [← nodeAt?_outline, ← nodeAt?_outline, h.outline_eq]

theorem files_eq (h : AgreesExcept place tree changed) {session : Session}
    {options : WalkOptions} (hrules : options.all = true ∨ ¬ tree.HoldsRules session place)
    (root : Path) {location : Location} {entries changes : List (Name × FileTree)}
    (hnode : tree.nodeAt? location = some (.directory entries))
    (hchanged : changed.nodeAt? location = some (.directory changes)) :
    Walk.files ⟨changed, session, options, root⟩ location =
      Walk.files ⟨tree, session, options, root⟩ location := by
  have houtline := h.outline_nodeAt?_eq location
  rw [hnode, hchanged, Option.map_some, Option.map_some, Option.some.injEq] at houtline
  have hfiles : (directory changes).fileLocations = (directory entries).fileLocations := by
    rw [← fileLocations_outline, houtline, fileLocations_outline]
  rw [Walk.files_eq_filter _ hchanged, Walk.files_eq_filter _ hnode, hfiles,
    h.listsFromRoot_eq hrules]

theorem filesOfRoot_eq (h : AgreesExcept place tree changed) {session : Session}
    {options : WalkOptions} (hrules : options.all = true ∨ ¬ tree.HoldsRules session place)
    (root : Path) :
    changed.filesOfRoot session options root = tree.filesOfRoot session options root := by
  rw [filesOfRoot, filesOfRoot, h.locate_eq]
  cases tree.locate session root with
  | error reason => rfl
  | ok location =>
      have houtline := h.outline_nodeAt?_eq location
      cases hnode : tree.nodeAt? location with
      | none =>
          rw [hnode, Option.map_none, Option.map_eq_none_iff] at houtline
          simp only [hnode, houtline]
      | some node =>
          rw [hnode, Option.map_some, Option.map_eq_some_iff] at houtline
          obtain ⟨other, hother, heq⟩ := houtline
          rcases outline_eq_cases heq with
            ⟨old, new, rfl, rfl⟩ | ⟨target, rfl, rfl⟩ | ⟨entries, changes, rfl, rfl⟩
          · simp only [hnode, hother]
          · simp only [hnode, hother]
          · simp only [hnode, hother, h.files_eq hrules root hnode hother]

/-- What is collected does not depend on the content of the file. -/
theorem collect_eq (h : AgreesExcept place tree changed) {session : Session}
    {options : WalkOptions} (hrules : options.all = true ∨ ¬ tree.HoldsRules session place)
    (roots : List Path) :
    changed.collect session options roots = tree.collect session options roots := by
  have hroots : changed.filesOfRoot session options = tree.filesOfRoot session options :=
    funext fun root => h.filesOfRoot_eq hrules root
  rw [collect, collect, hroots]

theorem content_eq_of_find (h : AgreesExcept place tree changed) {session : Session} {path : Path}
    (hpath : tree.locate session path ≠ .ok place) {old new : ByteArray}
    (hfind : tree.find session path = .ok (.file old))
    (hchanged : changed.find session path = .ok (.file new)) : new = old := by
  obtain ⟨location, hlocate, hnode⟩ := find_eq_ok_iff.mp hfind
  obtain ⟨other, hlocate', hnode'⟩ := find_eq_ok_iff.mp hchanged
  rw [h.locate_eq, hlocate] at hlocate'
  obtain rfl := Except.ok.inj hlocate'
  have hcontent := h.content_eq location fun heq => hpath (heq ▸ hlocate)
  simpa only [contentAt?, hnode, hnode', Option.some.injEq] using hcontent

/-- A path that leads somewhere else is read as before. -/
theorem readSource_eq (h : AgreesExcept place tree changed) {session : Session} {path : Path}
    (hpath : tree.locate session path ≠ .ok place) (limit : Nat) :
    changed.readSource session limit path = tree.readSource session limit path := by
  have houtline : (changed.find session path).map outline =
      (tree.find session path).map outline := by
    rw [← find_outline, ← find_outline, h.outline_eq]
  rw [readSource, readSource]
  cases hfind : tree.find session path with
  | error reason =>
      cases hchanged : changed.find session path with
      | error other =>
          rw [hfind, hchanged] at houtline
          rw [Except.error.inj houtline]
      | ok other => simp [hfind, hchanged, Except.map] at houtline
  | ok node =>
      cases hchanged : changed.find session path with
      | error other => simp [hfind, hchanged, Except.map] at houtline
      | ok other =>
          rw [hfind, hchanged] at houtline
          rcases outline_eq_cases (Except.ok.inj houtline) with
            ⟨old, new, rfl, rfl⟩ | ⟨target, rfl, rfl⟩ | ⟨entries, changes, rfl, rfl⟩
          · rw [h.content_eq_of_find hpath hfind hchanged]
          · rfl
          · rfl

theorem extract_eq (h : AgreesExcept place tree changed) {session : Session} {path : Path}
    (hpath : tree.locate session path ≠ .ok place) (limit : Nat) (language : Option Language) :
    changed.extract session limit language path = tree.extract session limit language path := by
  rw [extract, extract, h.readSource_eq hpath]

end AgreesExcept

/-- What a run gives before and after a change to one file differs at most in the
results for that file: the run fails as before, or it gives as many results in the
same order, and those for paths that do not lead to the file are the same. -/
def DiffersOnlyAt (tree : FileTree) (session : Session) (place : Location)
    (before after : Except Failure (List FileResult)) : Prop :=
  (∃ failure, before = .error failure ∧ after = .error failure) ∨
    ∃ results changed, before = .ok results ∧ after = .ok changed ∧
      List.Forall₂ (fun result other => ∃ path, resultPath? result = some path ∧
        resultPath? other = some path ∧ (tree.locate session path ≠ .ok place → other = result))
        results changed

/-- Files do not concern one another. Whatever is put into a file, a run differs at most
in the results for that file, if everything is asked for, or else if no rules are taken
from the file: it is an ordinary one, no directory takes rules from it through a link,
and it has no say in the rules of the user. -/
theorem run_put {tree : FileTree} {session : Session} {place : Location} {old : ByteArray}
    {options : WalkOptions} (hfile : tree.nodeAt? place = some (.file old))
    (hrules : options.all = true ∨ IsOrdinary place ∧ ¬ tree.HoldsLinkedRules place ∧
      ¬ tree.HoldsUserRules session place)
    (new : ByteArray) (limit : Nat) (roots : List Path) :
    DiffersOnlyAt tree session place (tree.run session limit options roots)
      ((put (.file new) place tree).run session limit options roots) := by
  have hagrees := agreesExcept_put hfile new
  have hfree : options.all = true ∨ ¬ tree.HoldsRules session place := by
    refine hrules.imp_right ?_
    rintro ⟨hordinary, hlinked, huser⟩
    exact hordinary.not_holdsRules hlinked huser
  have hcollect := hagrees.collect_eq hfree roots
  cases hfiles : tree.collect session options roots with
  | error failure =>
      rw [hfiles] at hcollect
      refine .inl ⟨failure, ?_, ?_⟩
      · rw [run, hfiles]; rfl
      · rw [run, hcollect]; rfl
  | ok files =>
      rw [hfiles] at hcollect
      refine .inr ⟨_, _, run_of_collect hfiles limit, run_of_collect hcollect limit, ?_⟩
      rw [List.forall₂_map_left_iff, List.forall₂_map_right_iff, List.forall₂_same]
      intro path _
      exact ⟨path, resultPath?_extract .., resultPath?_extract .., fun hpath =>
        hagrees.extract_eq hpath limit options.language⟩

/-- Sources in one directory, some of them ignored there or by the user, and a link to
one of them. -/
def sampleEntries : List (Name × FileTree) :=
  [entry ".gitignore" (ofText "*.go\n"), entry ".gitconfig" (ofText "[core]\n excludesFile = ~/mine"),
    entry "mine" (ofText "*.hs\n"), entry "a.go" (ofText ""), entry "b.c" (ofText "// b"),
    entry "c.c" (ofText "// c"), entry "d.hs" (ofText ""), entry "l.c" (.link (.ofString "/b.c"))]

def sampleDirectory : FileTree :=
  .directory sampleEntries

/-- The user is at home at the top. -/
def sampleSession : Session :=
  ⟨[], some (.ofString "/"), none⟩

theorem nodeAt?_sampleDirectory_ne_directory (name : Name) (rest : Location)
    (found : List (Name × FileTree)) :
    sampleDirectory.nodeAt? (name :: rest) ≠ some (.directory found) := by
  rw [nodeAt?_cons]
  intro hnode
  obtain ⟨node, hentry, hnode⟩ := Option.bind_eq_some_iff.mp hnode
  have hmem : (name, node) ∈ sampleEntries := mem_of_lookup hentry
  have hplain : ∀ entry ∈ sampleEntries, entry.2.isDirectory = false := by decide
  have hnot := hplain _ hmem
  cases rest with
  | nil =>
      obtain rfl := Option.some.inj hnode
      exact absurd hnot Bool.noConfusion
  | cons next more =>
      cases node with
      | file content => exact absurd hnode (Option.some_ne_none _).symm
      | link target => exact absurd hnode (Option.some_ne_none _).symm
      | directory entries => exact absurd hnot Bool.noConfusion

theorem not_holdsLinkedRules_sampleDirectory :
    ¬ sampleDirectory.HoldsLinkedRules [(Path.ofString "b.c").bytes] := by
  rintro ⟨directory, names, hnames, hfollow, -⟩
  have hplace := rulePlaces_cases hnames
  cases directory with
  | nil =>
      have hgeneral : sampleDirectory.follow linkLimit [] [(Path.ofString ".ignore").bytes] =
          .error .missing := by
        cbv
      have hrepository : sampleDirectory.follow linkLimit []
          [(Path.ofString ".gitignore").bytes] = .ok [(Path.ofString ".gitignore").bytes] := by
        cbv
      have hmetadata : sampleDirectory.follow linkLimit [] [(Path.ofString ".git").bytes,
          (Path.ofString "info").bytes, (Path.ofString "exclude").bytes] = .error .missing := by
        cbv
      rcases hplace with rfl | rfl | rfl
      · cases hgeneral.symm.trans hfollow
      · exact absurd (Except.ok.inj (hrepository.symm.trans hfollow)) (by decide +kernel)
      · cases hmetadata.symm.trans hfollow
  | cons name rest =>
      have hstuck := follow_of_not_directory (nodeAt?_sampleDirectory_ne_directory name rest)
        linkLimit
      rcases hplace with rfl | rfl | rfl
      · cases (hstuck _ _).symm.trans hfollow
      · cases (hstuck _ _).symm.trans hfollow
      · cases (hstuck _ _).symm.trans hfollow

theorem not_holdsUserRules_sampleDirectory :
    ¬ sampleDirectory.HoldsUserRules sampleSession [(Path.ofString "b.c").bytes] := by
  have hexcludes : sampleDirectory.excludesFile? sampleSession = some (.ofString "//mine") := by
    cbv
  have hmine : sampleDirectory.locate sampleSession (.ofString "//mine") =
      .ok [(Path.ofString "mine").bytes] := by
    cbv
  have hfiles : sampleSession.configFiles =
      [.ofString "/.gitconfig", .ofString "/.config/git/config"] := by
    cbv
  have hconfig : sampleDirectory.locate sampleSession (.ofString "/.gitconfig") =
      .ok [(Path.ofString ".gitconfig").bytes] := by
    cbv
  have hother : sampleDirectory.locate sampleSession (.ofString "/.config/git/config") =
      .error .missing := by
    cbv
  rintro (⟨file, hfile, hlocate⟩ | ⟨earlier, file, later, hsplit, -, hlocate⟩)
  · obtain rfl := Option.some.inj (hexcludes.symm.trans hfile)
    exact absurd (Except.ok.inj (hmine.symm.trans hlocate)) (by decide +kernel)
  · have hmem : file ∈ sampleSession.configFiles := by simp [hsplit]
    rw [hfiles, List.mem_pair] at hmem
    rcases hmem with rfl | rfl
    · exact absurd (Except.ok.inj (hconfig.symm.trans hlocate)) (by decide +kernel)
    · cases hother.symm.trans hlocate

theorem run_put_sampleDirectory :
    sampleDirectory.nodeAt? [(Path.ofString "b.c").bytes] = some (ofText "// b") ∧
      IsOrdinary [(Path.ofString "b.c").bytes] ∧
      ¬ sampleDirectory.HoldsLinkedRules [(Path.ofString "b.c").bytes] ∧
      ¬ sampleDirectory.HoldsUserRules sampleSession [(Path.ofString "b.c").bytes] ∧
      sampleDirectory.run sampleSession 100 .default [.ofString ".", .ofString "l.c"] =
        .ok [.ok ⟨.ofString "./b.c", .c, [.single " b" 1]⟩,
          .ok ⟨.ofString "./c.c", .c, [.single " c" 1]⟩,
          .ok ⟨.ofString "l.c", .c, [.single " b" 1]⟩] ∧
      (put (ofText "/* b") [(Path.ofString "b.c").bytes] sampleDirectory).run sampleSession 100
        .default [.ofString ".", .ofString "l.c"] =
        .ok [.error (.unterminated (.ofString "./b.c") ⟨1⟩),
          .ok ⟨.ofString "./c.c", .c, [.single " c" 1]⟩,
          .error (.unterminated (.ofString "l.c") ⟨1⟩)] ∧
      DiffersOnlyAt sampleDirectory sampleSession [(Path.ofString "b.c").bytes]
        (sampleDirectory.run sampleSession 100 .default [.ofString ".", .ofString "l.c"])
        ((put (ofText "/* b") [(Path.ofString "b.c").bytes] sampleDirectory).run sampleSession 100
          .default [.ofString ".", .ofString "l.c"]) := by
  have hfile : sampleDirectory.nodeAt? [(Path.ofString "b.c").bytes] = some (ofText "// b") := by
    cbv
  have hordinary : IsOrdinary [(Path.ofString "b.c").bytes] :=
    ⟨by decide +kernel, by decide +kernel, by decide +kernel⟩
  have hbefore : sampleDirectory.run sampleSession 100 .default [.ofString ".", .ofString "l.c"] =
      .ok [.ok ⟨.ofString "./b.c", .c, [.single " b" 1]⟩,
        .ok ⟨.ofString "./c.c", .c, [.single " c" 1]⟩,
        .ok ⟨.ofString "l.c", .c, [.single " b" 1]⟩] := by
    cbv
  have hafter : (put (ofText "/* b") [(Path.ofString "b.c").bytes] sampleDirectory).run
      sampleSession 100 .default [.ofString ".", .ofString "l.c"] =
      .ok [.error (.unterminated (.ofString "./b.c") ⟨1⟩),
        .ok ⟨.ofString "./c.c", .c, [.single " c" 1]⟩,
        .error (.unterminated (.ofString "l.c") ⟨1⟩)] := by
    cbv
  refine ⟨hfile, hordinary, not_holdsLinkedRules_sampleDirectory,
    not_holdsUserRules_sampleDirectory, hbefore, hafter, ?_⟩
  exact run_put hfile (.inr ⟨hordinary, not_holdsLinkedRules_sampleDirectory,
    not_holdsUserRules_sampleDirectory⟩) "/* b".toUTF8 100 _

theorem not_differsOnlyAt_of_length {tree : FileTree} {session : Session} {place : Location}
    {results changed : List FileResult} (h : results.length ≠ changed.length) :
    ¬ DiffersOnlyAt tree session place (.ok results) (.ok changed) := by
  rintro (⟨failure, herror, -⟩ | ⟨before, after, hbefore, hafter, hall⟩)
  · cases herror
  · obtain rfl := Except.ok.inj hbefore
    obtain rfl := Except.ok.inj hafter
    exact h hall.length_eq

/-- A directory that takes its rules from one of its sources, through a link. -/
def linkedRules : FileTree :=
  .directory [entry "a.go" (ofText "// a"), entry "rules.c" (ofText ""),
    entry ".gitignore" (.link (.ofString "rules.c"))]

/-- The home of a user, with excludes in the usual place. -/
def homeRules : FileTree :=
  .directory [entry "a.go" (ofText "// a"),
    entry ".config" (.directory [entry "git" (.directory [entry "ignore" (ofText "")])])]

/-- Where the excludes are. -/
def homeRulesPlace : Location :=
  [".config", "git", "ignore"].map fun name => (Path.ofString name).bytes

/-- An ordinary name is not enough: behind a link, or as the excludes of the user, the
content of a file decides what becomes of another. -/
theorem run_put_linkedRules :
    (linkedRules.nodeAt? [(Path.ofString "rules.c").bytes] = some (ofText "") ∧
      IsOrdinary [(Path.ofString "rules.c").bytes] ∧
      ¬ DiffersOnlyAt linkedRules .atTop [(Path.ofString "rules.c").bytes]
        (linkedRules.run .atTop 100 .default [.ofString "."])
        ((put (ofText "*.go\n") [(Path.ofString "rules.c").bytes] linkedRules).run .atTop 100
          .default [.ofString "."])) ∧
    homeRules.nodeAt? homeRulesPlace = some (ofText "") ∧ IsOrdinary homeRulesPlace ∧
      ¬ DiffersOnlyAt homeRules sampleSession homeRulesPlace
        (homeRules.run sampleSession 100 .default [.ofString "."])
        ((put (ofText "*.go\n") homeRulesPlace homeRules).run sampleSession 100 .default
          [.ofString "."]) := by
  have hbefore : linkedRules.run .atTop 100 .default [.ofString "."] =
      .ok [.ok ⟨.ofString "./a.go", .go, [.single " a" 1]⟩,
        .ok ⟨.ofString "./rules.c", .c, []⟩] := by
    cbv
  have hafter : (put (ofText "*.go\n") [(Path.ofString "rules.c").bytes] linkedRules).run .atTop
      100 .default [.ofString "."] = .ok [.ok ⟨.ofString "./rules.c", .c, []⟩] := by
    cbv
  have hhome : homeRules.run sampleSession 100 .default [.ofString "."] =
      .ok [.ok ⟨.ofString "./a.go", .go, [.single " a" 1]⟩] := by
    cbv
  have hchanged : (put (ofText "*.go\n") homeRulesPlace homeRules).run sampleSession 100 .default
      [.ofString "."] = .ok [] := by
    cbv
  refine ⟨⟨by cbv, ⟨by decide +kernel, by decide +kernel, by decide +kernel⟩, ?_⟩, by cbv,
    ⟨by decide +kernel, by decide +kernel, by decide +kernel⟩, ?_⟩
  · rw [hbefore, hafter]
    exact not_differsOnlyAt_of_length (by decide)
  · rw [hhome, hchanged]
    exact not_differsOnlyAt_of_length (by decide)

end FileTree

end Marginalia
