import Marginalia.FileTree
import Marginalia.Ignore.File

/-! # Rules of the user

A user can have excludes that hold in every repository. They are in a file that the
user's configuration of git names, or else in a place of their own.
-/

namespace Marginalia

/-! ## Configuration files

A configuration is read byte by byte, a byte being taken as the character with its
code. Of all that can stand in it only the name of the excludes counts.
-/

namespace GitConfig

def isBlank (c : Char) : Bool :=
  c = ' ' || ('\t' ≤ c && c ≤ '\r')

/-- A blank that does not end a line. -/
def isInnerBlank (c : Char) : Bool :=
  isBlank c && c ≠ '\n'

/-- Whether nothing follows on a line but blanks, with at most one quotation mark
among them. -/
def endsLine (text : List Char) : Bool :=
  let rest :=
    match text.dropWhile isInnerBlank with
    | '"' :: rest => rest.dropWhile isInnerBlank
    | rest => rest
  rest.head?.all (· = '\n')

/-- The shortest part of a word after which nothing follows on its line. -/
def word? : List Char → Option (List Char)
  | [] => none
  | c :: rest =>
      if isBlank c then none
      else if endsLine rest then some [c]
      else (word? rest).map (c :: ·)

/-- The value of an entry, which may be in quotation marks and may stand on a later
line. -/
def value? (text : List Char) : Option (List Char) :=
  let text := text.dropWhile isBlank
  match text with
  | '"' :: rest => (word? (rest.dropWhile isBlank)).or (word? text)
  | _ => word? text

/-- What follows a word in small letters, whatever the case of its letters. -/
def dropWord? : List Char → List Char → Option (List Char)
  | [], text => some text
  | _ :: _, [] => none
  | letter :: word, c :: text => if c.toLower = letter then dropWord? word text else none

/-- The excludes that an entry at the start of a text names. -/
def excludesAt? (text : List Char) : Option (List Char) :=
  match (dropWord? "excludesfile".toList (text.dropWhile isBlank)).map (·.dropWhile isBlank) with
  | some ('=' :: value) => value? value
  | _ => none

/-- The excludes that the first entry to do so names. Entries stand at the start of a
line. -/
def excludes? (lineStart : Bool) : List Char → Option (List Char)
  | [] => none
  | c :: rest =>
      (if lineStart then excludesAt? (c :: rest) else none).or (excludes? (c = '\n') rest)

end GitConfig

/-! ## Files of the user -/

namespace Session

/-- The directory for the settings of the user. -/
def configDirectory? (session : Session) : Option Path :=
  (session.configHome.filter (·.bytes ≠ [])).or (session.home.map (·.under [".config"]))

/-- The configurations that may name the user's excludes. The first that does is
believed. -/
def configFiles (session : Session) : List Path :=
  (session.home.map (·.under [".gitconfig"])).toList ++
    (session.configDirectory?.map (·.under ["git", "config"])).toList

/-- Where the excludes are if no configuration names them. -/
def usualExcludes? (session : Session) : Option Path :=
  session.configDirectory?.map (·.under ["git", "ignore"])

/-- The path that a text stands for, with the home directory for every tilde. -/
def expand (session : Session) (text : String) : Path :=
  match session.home with
  | none => .ofString text
  | some home =>
      .ofString (String.ofList
        (text.toList.flatMap fun c => if c = '~' then home.display.toList else [c]))

/-- The excludes that a configuration names. -/
def excludesNamedIn? (session : Session) (config : ByteArray) : Option Path :=
  ((GitConfig.excludes? true (Ignore.byteChars config.toList)).bind fun value =>
    Text.decode? (value.map fun c => c.toNat.toUInt8)).map session.expand

end Session

namespace FileTree

/-- The excludes that the configuration in the file at a path names. -/
def excludesNamedBy? (tree : FileTree) (session : Session) (file : Path) : Option Path :=
  (tree.contentOf? session file).bind session.excludesNamedIn?

/-- The path of the user's excludes. -/
def excludesFile? (tree : FileTree) (session : Session) : Option Path :=
  (session.configFiles.findSome? (tree.excludesNamedBy? session)).or session.usualExcludes?

/-- The rules that the user has in every repository. -/
def userRules (tree : FileTree) (session : Session) : List Ignore.Rule :=
  ((tree.excludesFile? session).bind (tree.contentOf? session)).elim [] fun content =>
    Ignore.rules content.toList

end FileTree

end Marginalia
