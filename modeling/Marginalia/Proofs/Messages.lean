import Mathlib
import Marginalia.Proofs.FileResults
import Marginalia.Proofs.ReadingBack
import Marginalia.Proofs.Reports

/-! # Messages on one line

The message of a failure names the path that it is about. If no name has a newline in
it, every message takes one line, and the messages can be read back from what is
written for them.
-/

namespace Marginalia

namespace Text

/-- The text has no newline in it. -/
def OneLine (text : String) : Prop :=
  '\n' ∉ text.toList

instance (text : String) : Decidable (OneLine text) :=
  inferInstanceAs (Decidable (_ ∉ _))

theorem oneLine_append {text more : String} :
    OneLine (text ++ more) ↔ OneLine text ∧ OneLine more := by
  simp [OneLine]

theorem oneLine_toString (n : Nat) : OneLine (ToString.toString n) :=
  fun hmem => absurd (isDigit_of_mem_toString hmem) (by decide)

theorem suffix_readTail (more bits low high : Nat) (bytes : List UInt8) :
    (readTail more bits low high bytes).2 <:+ bytes := by
  fun_induction readTail more bits low high bytes with
  | case1 => exact List.suffix_refl _
  | case2 => exact List.suffix_refl _
  | case3 bits low high more byte rest hrange ih => exact ih.trans (List.suffix_cons _ _)
  | case4 => exact List.suffix_refl _

theorem suffix_readChar (byte : UInt8) (rest : List UInt8) : (readChar byte rest).2 <:+ rest := by
  unfold readChar
  split
  · exact List.suffix_refl _
  · exact suffix_readTail ..

/-- A narrow character is printed only for a byte with its number. -/
theorem exists_of_mem_decodeLossy {bytes : List UInt8} {c : Char} (h : c ∈ decodeLossy bytes)
    (hnarrow : IsNarrow c) : ∃ byte ∈ bytes, byte.toNat = c.toNat := by
  fun_induction decodeLossy bytes with
  | case1 => exact absurd h List.not_mem_nil
  | case2 byte rest ih =>
      rcases List.mem_cons.mp h with rfl | hlater
      · exact ⟨byte, List.mem_cons_self, (readChar_of_isNarrow hnarrow).1.symm⟩
      · obtain ⟨found, hfound, hnumber⟩ := ih hlater
        exact ⟨found, List.mem_cons_of_mem _ ((suffix_readChar byte rest).subset hfound), hnumber⟩

end Text

namespace Path

def newline : UInt8 := 0x0A

/-- The path has no newline in it. -/
def OneLine (path : Path) : Prop :=
  newline ∉ path.bytes

instance (path : Path) : Decidable path.OneLine :=
  inferInstanceAs (Decidable (_ ∉ _))

theorem OneLine.display {path : Path} (h : path.OneLine) : Text.OneLine path.display := by
  rw [Text.OneLine, Path.display, String.toList_ofList]
  intro hmem
  obtain ⟨byte, hbyte, hnumber⟩ := Text.exists_of_mem_decodeLossy hmem (by decide)
  exact h (UInt8.toNat_inj.mp (hnumber.trans rfl : byte.toNat = newline.toNat) ▸ hbyte)

theorem OneLine.child {path : Path} (h : path.OneLine) {name : Name} (hname : newline ∉ name) :
    (path.child name).OneLine := by
  have hslash : newline ≠ slash := by decide
  unfold OneLine Path.child
  split <;> simp_all [OneLine]

theorem OneLine.descend {path : Path} (h : path.OneLine) {names : Location}
    (hnames : ∀ name ∈ names, newline ∉ name) : (path.descend names).OneLine := by
  induction names generalizing path with
  | nil => exact h
  | cons name rest ih =>
      obtain ⟨hname, hrest⟩ := List.forall_mem_cons.mp hnames
      exact ih (h.child hname) hrest

end Path

/-! ## One failure -/

theorem ReadFailure.IsKnown.oneLine {reason : ReadFailure} (h : reason.IsKnown) :
    Text.OneLine reason.message := by
  cases reason with
  | other message => exact absurd rfl (h message)
  | _ => decide +kernel

theorem Failure.OfReading.oneLine {path : Path} {failure : Failure}
    (h : failure.OfReading path) (hpath : path.OneLine) : Text.OneLine failure.message := by
  have hdisplay := hpath.display
  cases h with
  | @unreadable reason known =>
      change Text.OneLine ("cannot read '" ++ path.display ++ "': " ++ reason.message)
      simp only [Text.oneLine_append]
      exact ⟨⟨⟨by decide +kernel, hdisplay⟩, by decide +kernel⟩, known.oneLine⟩
  | tooLarge size limit =>
      change Text.OneLine ("'" ++ path.display ++ "' is " ++ ToString.toString size ++
        " bytes, over the " ++ ToString.toString limit ++ " byte limit")
      simp only [Text.oneLine_append]
      exact ⟨⟨⟨⟨⟨⟨by decide +kernel, hdisplay⟩, by decide +kernel⟩, Text.oneLine_toString size⟩,
        by decide +kernel⟩, Text.oneLine_toString limit⟩, by decide +kernel⟩
  | unterminated reason =>
      change Text.OneLine (path.display ++ ": " ++
        ("unterminated block comment starting on line " ++ ToString.toString reason.line))
      simp only [Text.oneLine_append]
      exact ⟨⟨hdisplay, by decide +kernel⟩, by decide +kernel, Text.oneLine_toString reason.line⟩

theorem Failure.oneLine_unknownLanguage {path : Path} (hpath : path.OneLine) :
    Text.OneLine (Failure.unknownLanguage path).message := by
  change Text.OneLine ("cannot infer language of '" ++ path.display ++ "'; use --language")
  simp only [Text.oneLine_append]
  exact ⟨⟨by decide +kernel, hpath.display⟩, by decide +kernel⟩

/-! ## All results -/

namespace FileTree

/-- No name on the way to a file of the tree has a newline in it. -/
def OneLineNames (tree : FileTree) : Prop :=
  ∀ location ∈ tree.fileLocations, ∀ name ∈ location, Path.newline ∉ name

/-- The files below a node are files of the tree. -/
theorem append_mem_fileLocations {tree node : FileTree} {location names : Location}
    (hnode : tree.nodeAt? location = some node) (hnames : names ∈ node.fileLocations) :
    location ++ names ∈ tree.fileLocations := by
  induction location generalizing tree with
  | nil =>
      obtain rfl := Option.some.inj hnode
      exact hnames
  | cons name rest ih =>
      rw [nodeAt?_cons, Option.bind_eq_some_iff] at hnode
      obtain ⟨next, hentry, hnode⟩ := hnode
      cases tree with
      | file content => exact absurd hentry (Option.some_ne_none _).symm
      | link target => exact absurd hentry (Option.some_ne_none _).symm
      | directory entries =>
          have hmem : (name, next) ∈ entries := mem_of_lookup hentry
          exact mem_fileLocations_directory.mpr ⟨name, next, _, hmem, ih hnode, rfl⟩

theorem OneLineNames.filesOfRoot {tree : FileTree} (h : tree.OneLineNames) {session : Session}
    {options : WalkOptions} {root : Path} (hroot : root.OneLine) {files : List Path}
    (hfiles : tree.filesOfRoot session options root = .ok files) :
    ∀ path ∈ files, path.OneLine := by
  intro path hpath
  rcases filesOfRoot_cases hfiles with ⟨-, rfl⟩ | ⟨entries, hfind, hfound⟩
  · rwa [List.mem_singleton.mp hpath]
  · obtain ⟨-, names, hnames, rfl⟩ := hfound path hpath
    obtain ⟨location, -, hnode⟩ := find_eq_ok_iff.mp hfind
    apply hroot.descend
    intro name hname
    exact h _ (append_mem_fileLocations hnode hnames) name (List.mem_append_right _ hname)

theorem filesOfRoot_error {tree : FileTree} {session : Session} {options : WalkOptions}
    {root : Path} {failure : Failure}
    (h : tree.filesOfRoot session options root = .error failure) : failure.OfReading root := by
  have hknown : ReadFailure.noSuchRoot.IsKnown := fun _ => ReadFailure.noConfusion
  unfold filesOfRoot at h
  cases hlocate : tree.locate session root with
  | error reason =>
      rw [hlocate] at h
      exact Except.error.inj h ▸ .unreadable hknown
  | ok location =>
      simp only [hlocate] at h
      cases hnode : tree.nodeAt? location with
      | none =>
          simp only [hnode] at h
          exact Except.error.inj h ▸ .unreadable hknown
      | some node =>
          simp only [hnode] at h
          cases node with
          | file content => cases h
          | directory entries => cases h
          | link target => exact Except.error.inj h ▸ .unreadable hknown

theorem run_singleton (tree : FileTree) (session : Session) (limit : Nat) (options : WalkOptions)
    (root : Path) :
    tree.run session limit options [root] = (tree.filesOfRoot session options root).map
      (List.map (tree.extract session limit options.language)) := by
  cases hfiles : tree.filesOfRoot session options root with
  | ok files => rw [run_of_collect (collect_singleton hfiles)]; rfl
  | error failure => simp [run, collect, List.mapM_cons, hfiles, bind, Except.bind, Except.map]

theorem oneLine_extract {path : Path} (hpath : path.OneLine) (tree : FileTree)
    (session : Session) (limit : Nat) (language : Option Language) :
    ∀ message ∈ Report.message? (tree.extract session limit language path),
      Text.OneLine message := by
  rcases tree.extract_cases session limit language path with
    ⟨-, hlacks⟩ | ⟨found, -, ⟨comments, hok⟩ | ⟨failure, herror, hreading⟩⟩
  · simp [hlacks, Report.message?, Failure.oneLine_unknownLanguage hpath]
  · simp [hok, Report.message?]
  · simp [herror, Report.message?, hreading.oneLine hpath]

end FileTree

theorem oneLine_scanInput (language : Language) (input : ByteArray) :
    ∀ message ∈ Report.message? (scanInput language input), Text.OneLine message := by
  have hpath : Path.standardInput.OneLine := by decide +kernel
  unfold scanInput
  cases String.fromUTF8? input with
  | none =>
      have hreading : Failure.OfReading .standardInput (.unreadable .standardInput .notUtf8) :=
        .unreadable fun _ => ReadFailure.noConfusion
      simp [Report.message?, hreading.oneLine hpath]
  | some text =>
      rcases scanText_cases .standardInput language (dropByteOrderMark text) with
        ⟨comments, hok⟩ | ⟨failure, herror, hreading⟩
      · simp [hok, Report.message?]
      · simp [herror, Report.message?, hreading.oneLine hpath]

namespace Request

theorem oneLine_pathResults {tree : FileTree} (htree : tree.OneLineNames) {path : Path}
    (hpath : path.OneLine) (request : Request) (session : Session) (limit : Nat)
    (input : ByteArray) :
    ∀ message ∈ Report.messages (request.pathResults tree session limit input path).1,
      Text.OneLine message := by
  intro message hmessage
  obtain ⟨result, hresult, hfailed⟩ := List.mem_filterMap.mp hmessage
  unfold pathResults at hresult
  split at hresult
  next language _ _ =>
    obtain rfl := List.mem_singleton.mp hresult
    exact oneLine_scanInput language input message hfailed
  next =>
    rw [FileTree.run_singleton] at hresult
    cases hfiles : tree.filesOfRoot session request.walkOptions path with
    | ok files =>
        rw [hfiles] at hresult
        obtain ⟨file, hfile, rfl⟩ := List.mem_map.mp hresult
        exact FileTree.oneLine_extract (htree.filesOfRoot hpath hfiles file hfile) tree session
          limit _ message hfailed
    | error failure =>
        rw [hfiles] at hresult
        obtain rfl := List.mem_singleton.mp hresult
        obtain rfl := Option.some.inj hfailed
        exact (FileTree.filesOfRoot_error hfiles).oneLine hpath

/-- If there is no newline in the names of the tree and in the paths of a request, no
message has one. -/
theorem oneLine_results {tree : FileTree} (htree : tree.OneLineNames) {paths : List Path}
    (hpaths : ∀ path ∈ paths, path.OneLine) (request : Request) (session : Session)
    (limit : Nat) (input : ByteArray) :
    ∀ message ∈ Report.messages (request.results tree session limit input paths),
      Text.OneLine message := by
  induction paths generalizing input with
  | nil => exact fun _ hmem => absurd hmem List.not_mem_nil
  | cons path paths ih =>
      obtain ⟨hpath, hrest⟩ := List.forall_mem_cons.mp hpaths
      intro message hmessage
      rw [results_cons, Report.messages_append] at hmessage
      rcases List.mem_append.mp hmessage with hfirst | hlater
      · exact request.oneLine_pathResults htree hpath session limit input message hfirst
      · exact ih hrest _ message hlater

end Request

/-! ## Reading messages back -/

namespace Report

theorem toList_reported_cons (message : String) (messages : List String) :
    (reported (message :: messages)).toList =
      "gleaner: ".toList ++ (message.toList ++ '\n' :: (reported messages).toList) := by
  rw [reported, List.map_cons, String.join_cons, complaint, reported]
  simp only [String.toList_append, List.append_assoc]
  rfl

/-- Messages on one line each can be read back from what is written for them. -/
theorem reported_inj {messages others : List String}
    (hmessages : ∀ message ∈ messages, Text.OneLine message)
    (hothers : ∀ message ∈ others, Text.OneLine message)
    (h : reported messages = reported others) : messages = others := by
  have hlists := congrArg String.toList h
  clear h
  induction messages generalizing others with
  | nil =>
      cases others with
      | nil => rfl
      | cons other others =>
          rw [toList_reported_cons] at hlists
          exact absurd (congrArg List.length hlists) (by simp [reported])
  | cons message messages ih =>
      cases others with
      | nil =>
          rw [toList_reported_cons] at hlists
          exact absurd (congrArg List.length hlists) (by simp [reported])
      | cons other others =>
          obtain ⟨hmessage, hmessages⟩ := List.forall_mem_cons.mp hmessages
          obtain ⟨hother, hothers⟩ := List.forall_mem_cons.mp hothers
          rw [toList_reported_cons, toList_reported_cons] at hlists
          obtain ⟨hfirst, hrest⟩ :=
            Text.until_inj hmessage hother (List.append_cancel_left hlists)
          rw [String.toList_inj.mp hfirst, ih hmessages hothers hrest]

end Report

end Marginalia
