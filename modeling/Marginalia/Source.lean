import Marginalia.CommentedFile
import Marginalia.Walk

/-! # Source files

Reading a source file under a size limit, and finding the comments in it. What
goes wrong with one file is a result of its own and concerns no other file.
-/

namespace Marginalia

/-- The size in bytes up to which files are read, unless another is asked for. -/
def defaultSizeLimit : Nat :=
  1000000

/-- What the size of a directory is taken to be. -/
def directorySize : Nat :=
  4096

/-- Drops a byte order mark from the start of a text. -/
def dropByteOrderMark (text : String) : String :=
  match text.toList with
  | '\ufeff' :: rest => String.ofList rest
  | _ => text

namespace FileTree

/-- The text of a source file. The size is checked before the content. -/
def readSource (tree : FileTree) (session : Session) (limit : Nat) (path : Path) :
    Except Failure String :=
  match tree.find session path with
  | .error reason => .error (.unreadable path reason)
  | .ok (.file content) =>
      if limit < content.size then .error (.tooLarge path content.size limit)
      else
        match String.fromUTF8? content with
        | some text => .ok (dropByteOrderMark text)
        | none => .error (.unreadable path .notUtf8)
  | .ok (.directory _) =>
      if limit < directorySize then .error (.tooLarge path directorySize limit)
      else .error (.unreadable path .directory)
  | .ok (.link _) => .error (.unreadable path .missing)

end FileTree

/-- The comments of a text read under the given path. -/
def scanText (path : Path) (language : Language) (text : String) : FileResult :=
  match language.grammar.scan text with
  | .ok comments => .ok ⟨path, language, comments⟩
  | .error reason => .error (.unterminated path reason)

namespace FileTree

/-- The comments of a file. The language is the one given, or else that of the
path, and it is settled before the file is read. -/
def extract (tree : FileTree) (session : Session) (limit : Nat) (language : Option Language)
    (path : Path) : FileResult :=
  match language.or (Language.ofPath? path) with
  | none => .error (.unknownLanguage path)
  | some language =>
      match tree.readSource session limit path with
      | .error failure => .error failure
      | .ok text => scanText path language text

/-- The comments of some files, file by file. -/
def extractAll (tree : FileTree) (session : Session) (limit : Nat) (options : WalkOptions)
    (paths : List Path) : List FileResult :=
  paths.map (tree.extract session limit options.language)

/-- The comments of the files that some roots stand for. -/
def run (tree : FileTree) (session : Session) (limit : Nat) (options : WalkOptions)
    (roots : List Path) : Except Failure (List FileResult) := do
  return tree.extractAll session limit options (← tree.collect session options roots)

end FileTree

end Marginalia
