import Mathlib
import Marginalia.Proofs.Outline
import Marginalia.Proofs.WalkOrder
import Marginalia.Source

/-! # Results file by file

Every result of a run is about one path. The language of a file is decided twice,
once when a walk asks whether the file is of interest and once when the file is
read; the two decisions agree. So only a file that is named as a root can turn out
to have no language.
-/

namespace Marginalia

/-- The path of the file that a result is about. -/
def resultPath? : FileResult → Option Path
  | .ok file => some file.path
  | .error failure => failure.path?

/-- The file could not be read because its language is not known. -/
def LacksLanguage (result : FileResult) : Prop :=
  ∃ path, result = .error (.unknownLanguage path)

/-- The file has a language: that of its path, and the one asked for if there is
one. -/
def KeepsLanguage (options : WalkOptions) (result : FileResult) : Prop :=
  ¬ LacksLanguage result ∧ ∀ file, result = .ok file →
    Language.ofPath? file.path = some file.language ∧
      ∀ language, options.language = some language → file.language = language

/-! ## Reading one file -/

/-- A reason that the library gives itself. -/
def ReadFailure.IsKnown (reason : ReadFailure) : Prop :=
  ∀ message, reason ≠ .other message

/-- A failure to read the file at a path. -/
inductive Failure.OfReading (path : Path) : Failure → Prop where
  | unreadable {reason : ReadFailure} (known : reason.IsKnown) :
      OfReading path (.unreadable path reason)
  | tooLarge (size limit : Nat) : OfReading path (.tooLarge path size limit)
  | unterminated (reason : UnterminatedComment) : OfReading path (.unterminated path reason)

theorem Failure.OfReading.path?_eq {path : Path} {failure : Failure}
    (h : failure.OfReading path) : failure.path? = some path := by
  cases h <;> rfl

theorem Failure.OfReading.ne_unknownLanguage {path : Path} {failure : Failure}
    (h : failure.OfReading path) (other : Path) : failure ≠ .unknownLanguage other := by
  cases h <;> exact Failure.noConfusion

theorem scanText_cases (path : Path) (language : Language) (text : String) :
    (∃ comments, scanText path language text = .ok ⟨path, language, comments⟩) ∨
      ∃ failure, scanText path language text = .error failure ∧ failure.OfReading path := by
  unfold scanText
  cases language.grammar.scan text with
  | ok comments => exact .inl ⟨comments, rfl⟩
  | error reason => exact .inr ⟨_, rfl, .unterminated reason⟩

namespace FileTree

theorem isKnown_of_follow {tree : FileTree} {links : Nat} {here : Location} {pieces : List Name}
    {reason : ReadFailure} (h : tree.follow links here pieces = .error reason) :
    reason.IsKnown := by
  fun_induction follow tree links here pieces with
  | case1 => cases h
  | case2 links here piece rest entries hnode hpiece ih => exact ih h
  | case3 links here rest entries hnode hpiece ih => exact ih h
  | case4 => exact Except.error.inj h ▸ fun _ => ReadFailure.noConfusion
  | case5 => exact Except.error.inj h ▸ fun _ => ReadFailure.noConfusion
  | case6 here piece rest entries hnode hpiece hup target hentry fewer ih => exact ih h
  | case7 links here piece rest entries hnode hpiece hup node hlink hentry ih => exact ih h
  | case8 => exact Except.error.inj h ▸ fun _ => ReadFailure.noConfusion

theorem isKnown_of_find {tree : FileTree} {session : Session} {path : Path}
    {reason : ReadFailure} (h : tree.find session path = .error reason) : reason.IsKnown := by
  unfold find at h
  cases hlocate : tree.locate session path with
  | error other =>
      rw [hlocate] at h
      obtain rfl := Except.error.inj h
      unfold locate at hlocate
      by_cases hempty : path.bytes = []
      · rw [if_pos hempty] at hlocate
        exact Except.error.inj hlocate ▸ fun _ => ReadFailure.noConfusion
      · rw [if_neg hempty] at hlocate
        exact isKnown_of_follow hlocate
  | ok location =>
      cases hnode : tree.nodeAt? location with
      | none =>
          simp only [hlocate, bind, Except.bind, hnode] at h
          exact Except.error.inj h ▸ fun _ => ReadFailure.noConfusion
      | some node =>
          simp only [hlocate, bind, Except.bind, hnode] at h
          cases h

/-- Reading fails for the path that is read. -/
theorem ofReading_of_readSource {tree : FileTree} {session : Session} {limit : Nat} {path : Path}
    {failure : Failure} (h : tree.readSource session limit path = .error failure) :
    failure.OfReading path := by
  unfold readSource at h
  cases hfind : tree.find session path with
  | error reason =>
      simp only [hfind, Except.error.injEq] at h
      exact h ▸ .unreadable (isKnown_of_find hfind)
  | ok node =>
      simp only [hfind] at h
      cases node with
      | link target => exact Except.error.inj h ▸ .unreadable fun _ => ReadFailure.noConfusion
      | file content =>
          by_cases hsize : limit < content.size
          · simp only [if_pos hsize, Except.error.injEq] at h
            exact h ▸ .tooLarge _ _
          · simp only [if_neg hsize] at h
            cases htext : String.fromUTF8? content with
            | none =>
                simp only [htext, Except.error.injEq] at h
                exact h ▸ .unreadable fun _ => ReadFailure.noConfusion
            | some text => simp [htext] at h
      | directory entries =>
          by_cases hsize : limit < directorySize
          · simp only [if_pos hsize, Except.error.injEq] at h
            exact h ▸ .tooLarge _ _
          · simp only [if_neg hsize, Except.error.injEq] at h
            exact h ▸ .unreadable fun _ => ReadFailure.noConfusion

/-- With its language settled, a file is read and its text scanned. -/
theorem extract_of_language {language : Option Language} {path : Path} {found : Language}
    (h : language.or (Language.ofPath? path) = some found) (tree : FileTree) (session : Session)
    (limit : Nat) :
    tree.extract session limit language path =
      (tree.readSource session limit path).bind (scanText path found) := by
  simp only [extract, h]
  cases tree.readSource session limit path with
  | error failure => rfl
  | ok text => rfl

/-- What can become of a file: it has no language, or it has one and is read, or
reading it fails. -/
theorem extract_cases (tree : FileTree) (session : Session) (limit : Nat)
    (language : Option Language) (path : Path) :
    (language.or (Language.ofPath? path) = none ∧
      tree.extract session limit language path = .error (.unknownLanguage path)) ∨
    ∃ found, language.or (Language.ofPath? path) = some found ∧
      ((∃ comments, tree.extract session limit language path = .ok ⟨path, found, comments⟩) ∨
        ∃ failure, tree.extract session limit language path = .error failure ∧
          failure.OfReading path) := by
  cases hlanguage : language.or (Language.ofPath? path) with
  | none => exact .inl ⟨rfl, by simp only [extract, hlanguage]⟩
  | some found =>
      refine .inr ⟨found, rfl, ?_⟩
      rw [extract_of_language hlanguage]
      cases hread : tree.readSource session limit path with
      | error failure => exact .inr ⟨failure, rfl, ofReading_of_readSource hread⟩
      | ok text => exact scanText_cases path found text

@[simp] theorem resultPath?_extract (tree : FileTree) (session : Session) (limit : Nat)
    (language : Option Language) (path : Path) :
    resultPath? (tree.extract session limit language path) = some path := by
  rcases tree.extract_cases session limit language path with
    ⟨-, hlacks⟩ | ⟨found, -, ⟨comments, hok⟩ | ⟨failure, herror, hreading⟩⟩
  · rw [hlacks]; rfl
  · rw [hok]; rfl
  · rw [herror]; exact hreading.path?_eq

theorem lacksLanguage_extract_iff (tree : FileTree) (session : Session) (limit : Nat)
    (language : Option Language) (path : Path) :
    LacksLanguage (tree.extract session limit language path) ↔
      language.or (Language.ofPath? path) = none := by
  rcases tree.extract_cases session limit language path with
    ⟨hnone, hlacks⟩ | ⟨found, hfound, ⟨comments, hok⟩ | ⟨failure, herror, hreading⟩⟩
  · simp [LacksLanguage, hlacks, hnone]
  · simp [LacksLanguage, hok, hfound]
  · simp [LacksLanguage, herror, hfound, hreading.ne_unknownLanguage]

theorem language_of_extract {tree : FileTree} {session : Session} {limit : Nat}
    {language : Option Language} {path : Path} {file : CommentedFile}
    (h : tree.extract session limit language path = .ok file) :
    language.or (Language.ofPath? path) = some file.language := by
  rcases tree.extract_cases session limit language path with
    ⟨-, hlacks⟩ | ⟨found, hfound, ⟨comments, hok⟩ | ⟨failure, herror, -⟩⟩
  · cases h.symm.trans hlacks
  · cases h.symm.trans hok
    exact hfound
  · cases h.symm.trans herror

/-! ## Roots -/

/-- A root stands for itself if it is a file, and for files of interest if it is a
directory. -/
theorem filesOfRoot_cases {tree : FileTree} {session : Session} {options : WalkOptions}
    {root : Path} {files : List Path} (h : tree.filesOfRoot session options root = .ok files) :
    ((∃ content, tree.find session root = .ok (.file content)) ∧ files = [root]) ∨
      ∃ entries, tree.find session root = .ok (.directory entries) ∧
        ∀ path ∈ files, options.admits path = true ∧
          ∃ names ∈ (directory entries).fileLocations, path = root.descend names := by
  cases hlocate : tree.locate session root with
  | error reason => simp [filesOfRoot, hlocate] at h
  | ok location =>
      cases hnode : tree.nodeAt? location with
      | none => simp [filesOfRoot, hlocate, hnode] at h
      | some node =>
          have hfind : tree.find session root = .ok node :=
            find_eq_ok_iff.mpr ⟨location, hlocate, hnode⟩
          cases node with
          | link target => simp [filesOfRoot, hlocate, hnode] at h
          | file content =>
              rw [filesOfRoot_file hfind] at h
              exact .inl ⟨⟨content, hfind⟩, (Except.ok.inj h).symm⟩
          | directory entries =>
              obtain ⟨here, hfiles⟩ := filesOfRoot_directory hfind
              rw [hfiles] at h
              obtain rfl := Except.ok.inj h
              refine .inr ⟨entries, hfind, ?_⟩
              intro path hpath
              obtain ⟨names, hnames, rfl⟩ := List.mem_map.mp hpath
              obtain ⟨hmem, hlists⟩ := List.mem_filter.mp hnames
              simp only [Walk.listsFromRoot, Walk.lists, Bool.and_eq_true] at hlists
              exact ⟨hlists.2, names, hmem, rfl⟩

theorem exists_filesOfRoot {tree : FileTree} {session : Session} {root : Path}
    (options : WalkOptions)
    (h : (∃ content, tree.find session root = .ok (.file content)) ∨
      ∃ entries, tree.find session root = .ok (.directory entries)) :
    ∃ files, tree.filesOfRoot session options root = .ok files := by
  rcases h with ⟨content, hfile⟩ | ⟨entries, hdirectory⟩
  · exact ⟨[root], filesOfRoot_file hfile options⟩
  · obtain ⟨here, hfiles⟩ := filesOfRoot_directory hdirectory
    exact ⟨_, hfiles options⟩

/-- The files of roots that are there, root by root. -/
theorem exists_collect {tree : FileTree} {session : Session} {roots : List Path}
    (options : WalkOptions)
    (h : ∀ root ∈ roots, (∃ content, tree.find session root = .ok (.file content)) ∨
      ∃ entries, tree.find session root = .ok (.directory entries)) :
    ∃ groups, tree.collect session options roots = .ok groups.flatten ∧
      List.Forall₂ (fun root files => tree.filesOfRoot session options root = .ok files) roots
        groups := by
  induction roots with
  | nil => exact ⟨[], collect_nil tree session options, .nil⟩
  | cons root roots ih =>
      obtain ⟨hroot, hroots⟩ := List.forall_mem_cons.mp h
      obtain ⟨files, hfiles⟩ := exists_filesOfRoot options hroot
      obtain ⟨groups, hcollect, hgroups⟩ := ih hroots
      exact ⟨files :: groups, collect_cons hfiles hcollect, .cons hfiles hgroups⟩

theorem run_of_collect {tree : FileTree} {session : Session} {options : WalkOptions}
    {roots files : List Path} (h : tree.collect session options roots = .ok files) (limit : Nat) :
    tree.run session limit options roots =
      .ok (files.map (tree.extract session limit options.language)) := by
  rw [run, h]
  rfl

/-- The results for one root, and how their languages were chosen. -/
structure RootResults (tree : FileTree) (session : Session) (limit : Nat)
    (options : WalkOptions) (root : Path) (results : List FileResult) : Prop where
  /-- There is a result for each file that the root stands for. -/
  paths : ∃ files, tree.filesOfRoot session options root = .ok files ∧
    results.map resultPath? = files.map some
  /-- A file found on a walk has the language of its path. -/
  walked : (∃ entries, tree.find session root = .ok (.directory entries)) →
    ∀ result ∈ results, KeepsLanguage options result
  /-- A file that is a root is scanned with the language asked for. -/
  named : (∃ content, tree.find session root = .ok (.file content)) → ∀ language,
    options.language = some language →
      results = [(tree.readSource session limit root).bind (scanText root language)]
  /-- Only a file that is a root can lack a language. -/
  lacking : ∀ result ∈ results, LacksLanguage result ↔
    (∃ content, tree.find session root = .ok (.file content)) ∧ Language.ofPath? root = none ∧
      options.language = none

/-- What is asked about the language of a file when it is found holds when it is
read. -/
theorem keepsLanguage_extract {options : WalkOptions} {path : Path} (h : options.admits path = true)
    (tree : FileTree) (session : Session) (limit : Nat) :
    KeepsLanguage options (tree.extract session limit options.language path) := by
  obtain ⟨found, hfound, hasked⟩ := (Option.any_eq_true _ _).mp h
  have hsettled : options.language.or (Language.ofPath? path) = some found := by
    cases hlanguage : options.language with
    | none => exact hfound
    | some language => simpa [hlanguage] using hasked
  constructor
  · rw [lacksLanguage_extract_iff, hsettled]
    exact Option.some_ne_none found
  · intro file hfile
    have hpath : file.path = path := by
      simpa [hfile, resultPath?] using tree.resultPath?_extract session limit options.language path
    have hlanguage : file.language = found :=
      Option.some.inj ((language_of_extract hfile).symm.trans hsettled)
    rw [hpath, hlanguage]
    refine ⟨hfound, ?_⟩
    intro language hasked
    rw [hasked, Option.some_or] at hsettled
    exact (Option.some.inj hsettled).symm

theorem rootResults {tree : FileTree} {session : Session} {options : WalkOptions} {root : Path}
    {files : List Path} (h : tree.filesOfRoot session options root = .ok files) (limit : Nat) :
    RootResults tree session limit options root
      (files.map (tree.extract session limit options.language)) := by
  have hpaths : (files.map (tree.extract session limit options.language)).map resultPath? =
      files.map some := by
    simp [List.map_map, Function.comp_def]
  rcases filesOfRoot_cases h with ⟨⟨content, hfile⟩, rfl⟩ | ⟨entries, hdirectory, hfound⟩
  · refine ⟨⟨_, h, hpaths⟩, ?_, ?_, ?_⟩
    · rintro ⟨entries, hdirectory⟩
      cases hfile.symm.trans hdirectory
    · intro _ language hlanguage
      rw [hlanguage, List.map_singleton, extract_of_language rfl]
    · intro result hresult
      obtain rfl := List.mem_singleton.mp hresult
      rw [lacksLanguage_extract_iff, Option.or_eq_none_iff]
      exact ⟨fun ⟨hasked, hpath⟩ => ⟨⟨content, hfile⟩, hpath, hasked⟩,
        fun ⟨_, hpath, hasked⟩ => ⟨hasked, hpath⟩⟩
  · have hwalked : ∀ result ∈ files.map (tree.extract session limit options.language),
        KeepsLanguage options result := by
      intro result hresult
      obtain ⟨path, hpath, rfl⟩ := List.mem_map.mp hresult
      exact keepsLanguage_extract (hfound path hpath).1 tree session limit
    refine ⟨⟨_, h, hpaths⟩, fun _ => hwalked, ?_, ?_⟩
    · rintro ⟨content, hfile⟩
      cases hfile.symm.trans hdirectory
    · intro result hresult
      refine iff_of_false (hwalked result hresult).1 ?_
      rintro ⟨⟨content, hfile⟩, -⟩
      cases hfile.symm.trans hdirectory

/-- Collecting and reading agree on languages. The results of a run over roots that
are there come root by root. A file found on a walk never lacks a language, and is
read as the language of its path, which is the one asked for if there is one. A
file that is a root lacks a language just if its path has none and none is asked
for, and is read as the language asked for, whatever its path. -/
theorem run_languages_agree {tree : FileTree} {session : Session} {roots : List Path}
    (limit : Nat) (options : WalkOptions)
    (h : ∀ root ∈ roots, (∃ content, tree.find session root = .ok (.file content)) ∨
      ∃ entries, tree.find session root = .ok (.directory entries)) :
    ∃ groups, tree.run session limit options roots = .ok groups.flatten ∧
      List.Forall₂ (RootResults tree session limit options) roots groups := by
  obtain ⟨groups, hcollect, hgroups⟩ := exists_collect options h
  refine ⟨groups.map (·.map (tree.extract session limit options.language)), ?_, ?_⟩
  · rw [run_of_collect hcollect, List.map_flatten]
  · rw [List.forall₂_map_right_iff]
    apply hgroups.imp
    intro root files hfiles
    exact rootResults hfiles limit

/-- A directory, a link to a file in it, and a file without a language. -/
def sampleRoots : List Path :=
  [.ofString "src/", .ofString "src/l.c", .ofString ".gitignore"]

theorem run_languages_agree_sampleProject :
    (∀ root ∈ sampleRoots, (∃ content, sampleProject.find .atTop root = .ok (.file content)) ∨
      ∃ entries, sampleProject.find .atTop root = .ok (.directory entries)) ∧
    ∃ groups, List.Forall₂ (RootResults sampleProject .atTop 100 .default) sampleRoots groups ∧
      groups.flatten =
        [.ok ⟨.ofString "src/a/.h.c", .c, []⟩, .ok ⟨.ofString "src/b.c", .c, [.single " b" 1]⟩,
          .ok ⟨.ofString "src/l.c", .c, [.single " b" 1]⟩,
          .error (.unknownLanguage (.ofString ".gitignore"))] := by
  have hlink : sampleProject.find .atTop (.ofString "src/l.c") = .ok (ofText "// b") := by
    cbv
  have hrules : sampleProject.find .atTop (.ofString ".gitignore") = .ok (ofText "*.go\n!.h*\n") := by
    cbv
  have hroots : ∀ root ∈ sampleRoots,
      (∃ content, sampleProject.find .atTop root = .ok (.file content)) ∨
        ∃ entries, sampleProject.find .atTop root = .ok (.directory entries) := by
    simp [sampleRoots, find_sampleProject, hlink, hrules, ofText]
  have hvalue : sampleProject.run .atTop 100 .default sampleRoots =
      .ok [.ok ⟨.ofString "src/a/.h.c", .c, []⟩, .ok ⟨.ofString "src/b.c", .c, [.single " b" 1]⟩,
        .ok ⟨.ofString "src/l.c", .c, [.single " b" 1]⟩,
        .error (.unknownLanguage (.ofString ".gitignore"))] := by
    cbv
  obtain ⟨groups, hrun, hgroups⟩ := run_languages_agree 100 .default hroots
  exact ⟨hroots, groups, hgroups, Except.ok.inj (hrun.symm.trans hvalue)⟩

end FileTree

end Marginalia
