import Marginalia.Text.Lossy

/-! # Paths

A path is a sequence of bytes; slashes separate its names. Names need not be
UTF-8, so a path is printed lossily.
-/

namespace Marginalia

structure Path where
  bytes : List UInt8
  deriving DecidableEq, Repr, Inhabited

/-- A file name: bytes without a slash. -/
abbrev Name := List UInt8

namespace Path

def slash : UInt8 := 0x2F

def dot : UInt8 := 0x2E

def ofString (text : String) : Path :=
  ⟨text.toUTF8.toList⟩

/-- The path as it is printed. -/
def display (path : Path) : String :=
  String.ofList (Text.decodeLossy path.bytes)

/-- Cuts bytes at every occurrence of a separator. There is always at least one
piece. -/
def splitAt (separator : UInt8) (bytes : List UInt8) : List (List UInt8) :=
  bytes.foldr
    (fun byte found =>
      if byte = separator then [] :: found
      else
        match found with
        | [] => [[byte]]
        | piece :: rest => (byte :: piece) :: rest)
    [[]]

/-- Cuts bytes at every slash. -/
def split (bytes : List UInt8) : List Name :=
  splitAt slash bytes

/-- One step of a path. -/
inductive Step where
  | root
  | here
  | up
  | down (name : Name)
  deriving DecidableEq, Repr

/-- The step that a piece between slashes stands for. Empty pieces and single
dots stand for none. -/
def Step.ofPiece? (piece : Name) : Option Step :=
  if piece = [] ∨ piece = [dot] then none
  else if piece = [dot, dot] then some .up
  else some (.down piece)

def isAbsolute (path : Path) : Bool :=
  path.bytes.head? = some slash

/-- The steps of a path. A single dot counts only where the path starts with it,
and slashes at the end do not count. -/
def steps (path : Path) : List Step :=
  let pieces := split path.bytes
  let start :=
    if path.isAbsolute then [.root]
    else if pieces.head? = some [dot] then [.here]
    else []
  start ++ pieces.filterMap Step.ofPiece?

/-- The name that a path ends in, if its last step goes down. -/
def fileName? (path : Path) : Option Name :=
  match path.steps.getLast? with
  | some (.down name) => some name
  | _ => none

/-- What follows the last dot of a name, unless that dot is its first byte. -/
def extensionOf? (name : Name) : Option Name :=
  let tail := name.reverse.takeWhile (· ≠ dot)
  if tail.length + 1 < name.length then some tail.reverse else none

def extension? (path : Path) : Option Name :=
  path.fileName?.bind extensionOf?

/-- The path of an entry of the directory that `path` names. -/
def child (path : Path) (name : Name) : Path :=
  if path.bytes = [] ∨ path.bytes.getLast? = some slash then ⟨path.bytes ++ name⟩
  else ⟨path.bytes ++ slash :: name⟩

/-- The path that some names lead to, one after the other. -/
def descend (path : Path) (names : List Name) : Path :=
  names.foldl child path

/-- The path of what has the given names below a directory. -/
def under (directory : Path) (names : List String) : Path :=
  directory.descend (names.map fun name => (ofString name).bytes)

/-- Names joined by slashes. -/
def join (names : List Name) : List UInt8 :=
  (names.intersperse [slash]).flatten

/-- The path that leads along some names from the top. -/
def absolute (names : List Name) : Path :=
  ⟨slash :: join names⟩

/-- The path that stands for standard input. -/
def standardInput : Path :=
  ofString "-"

/-- Two paths agree if they take the same steps. -/
def agrees (path other : Path) : Bool :=
  path.steps = other.steps

end Path

end Marginalia
