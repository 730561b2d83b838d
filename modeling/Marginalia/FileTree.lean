import Marginalia.Failure

/-! # File trees

A tree of directories, files and symbolic links, and how a path is followed in
it. An absolute path starts at the top of the tree, any other at the current
directory.
-/

namespace Marginalia

inductive FileTree where
  | file (content : ByteArray)
  | link (target : Path)
  | directory (entries : List (Name × FileTree))

/-- The names on the way from the top of a tree to one of its nodes. -/
abbrev Location := List Name

/-- What a program is started with that has a bearing on which files it sees. -/
structure Session where
  /-- The current directory. -/
  directory : Location
  /-- The home directory of the user. -/
  home : Option Path
  /-- The directory for the settings of the user, if there is a word for it. -/
  configHome : Option Path
  deriving DecidableEq, Repr

namespace Session

/-- At the top of a tree, with no user in sight. -/
def atTop : Session :=
  ⟨[], none, none⟩

end Session

/-- Where a path starts: at the top if it is absolute, else at a directory. -/
def Path.start (path : Path) (directory : Location) : Location :=
  if path.isAbsolute then [] else directory

namespace FileTree

instance : Inhabited FileTree :=
  ⟨.directory []⟩

/-- The entry of a directory with the given name. -/
def entry? (name : Name) : FileTree → Option FileTree
  | .directory entries => entries.lookup name
  | _ => none

def isDirectory : FileTree → Bool
  | .directory _ => true
  | _ => false

def isFile : FileTree → Bool
  | .file _ => true
  | _ => false

/-- The node at a location; links are not followed. -/
def nodeAt? (tree : FileTree) : Location → Option FileTree
  | [] => some tree
  | name :: rest => (tree.entry? name).bind (nodeAt? · rest)

/-- The content of the file at a location. -/
def contentAt? (tree : FileTree) (location : Location) : Option ByteArray :=
  match tree.nodeAt? location with
  | some (.file content) => some content
  | _ => none

/-- How many links are followed on the way along one path. -/
def linkLimit : Nat :=
  40

/-- Follows the pieces of a path from a location, with so many links allowed. An
empty piece or a dot stays where it is, but only in a directory. A link is
replaced by the pieces of its target, from where that starts. -/
def follow (tree : FileTree) (links : Nat) (here : Location) (pieces : List Name) :
    Except ReadFailure Location :=
  match pieces with
  | [] => .ok here
  | piece :: rest =>
      match tree.nodeAt? here with
      | some (.directory entries) =>
          if piece = [] ∨ piece = [Path.dot] then tree.follow links here rest
          else if piece = [Path.dot, Path.dot] then tree.follow links here.dropLast rest
          else
            match entries.lookup piece with
            | none => .error .missing
            | some (.link target) =>
                match links with
                | 0 => .error .linkLoop
                | fewer + 1 =>
                    tree.follow fewer (target.start here) (Path.split target.bytes ++ rest)
            | some _ => tree.follow links (here ++ [piece]) rest
      | _ => .error .notDirectory
termination_by (links, pieces.length)

/-- The location that a path leads to, all links followed. -/
def locate (tree : FileTree) (session : Session) (path : Path) :
    Except ReadFailure Location :=
  if path.bytes = [] then .error .missing
  else tree.follow linkLimit (path.start session.directory) (Path.split path.bytes)

/-- The node that a path leads to, all links followed. -/
def find (tree : FileTree) (session : Session) (path : Path) :
    Except ReadFailure FileTree := do
  match tree.nodeAt? (← tree.locate session path) with
  | some node => return node
  | none => throw .missing

/-- The content of the file that a path leads to, if it leads to one. -/
def contentOf? (tree : FileTree) (session : Session) (path : Path) : Option ByteArray :=
  (tree.locate session path).toOption.bind tree.contentAt?

/-- Puts an entry into a list of entries, in place of one with the same name. -/
def putEntry (name : Name) (node : FileTree) :
    List (Name × FileTree) → List (Name × FileTree)
  | [] => [(name, node)]
  | (other, old) :: rest =>
      if other = name then (name, node) :: rest else (other, old) :: putEntry name node rest

/-- Puts a node at a location. Directories on the way are made where there is
none. -/
def put (node : FileTree) : Location → FileTree → FileTree
  | [], _ => node
  | name :: rest, tree =>
      let entries :=
        match tree with
        | .directory entries => entries
        | _ => []
      .directory (putEntry name (put node rest ((entries.lookup name).getD (.directory [])))
        entries)

/-- Takes the node at a location away. -/
def remove : Location → FileTree → FileTree
  | [name], .directory entries => .directory (entries.filter (·.1 ≠ name))
  | name :: rest, .directory entries =>
      match entries.lookup name with
      | some node => .directory (putEntry name (remove rest node) entries)
      | none => .directory entries
  | _, tree => tree

/-- Splits the pieces of a path into those of its directory and its name. -/
def splitName (path : Path) : List Name × Name :=
  let pieces := (Path.split path.bytes).filter fun piece => piece ≠ [] ∧ piece ≠ [Path.dot]
  (pieces.dropLast, pieces.getLast?.getD [])

/-- Where a new entry with the given path from the top belongs: links on the way to its
directory are followed, and directories that are missing are taken as named. -/
def newLocation (tree : FileTree) (path : Path) : Location :=
  let (pieces, name) := splitName path
  match tree.follow linkLimit [] pieces with
  | .ok above => above ++ [name]
  | .error _ => pieces ++ [name]

/-- Adds an entry, with the directories above it. Content for a path that is
there already goes where the path leads, and a directory stays as it is. -/
def insert (tree : FileTree) (path : Path) (node : FileTree) : FileTree :=
  match node, tree.locate .atTop path with
  | .directory _, .ok _ => tree
  | .file _, .ok location => put node location tree
  | _, _ => put node (tree.newLocation path) tree

/-- Removes an entry, with all that is below it. -/
def erase (tree : FileTree) (path : Path) : FileTree :=
  remove (tree.newLocation path) tree

end FileTree

end Marginalia
