import Marginalia.Language
import Marginalia.NameGlob
import Marginalia.UserRules

/-! # Walks

The source files below a directory, in the order of their names. Hidden entries
and entries that ignore files exclude are passed over, unless everything is
asked for; a directory that is passed over is not entered. The directory where a
walk starts is never passed over itself.
-/

namespace Marginalia

structure WalkOptions where
  /-- Hidden and ignored entries count too. -/
  all : Bool
  /-- How many levels below the root are entered. -/
  maxDepth : Option Nat
  /-- Names that are passed over. -/
  globs : List String
  /-- The only language of interest. -/
  language : Option Language
  /-- How many files are read at a time, zero for as many as there is room for. -/
  workers : Nat
  deriving Repr

namespace WalkOptions

def default : WalkOptions :=
  ⟨false, none, [], none, 0⟩

/-- Whether a file found on a walk is of interest: its language is known, and it
is the one asked for. -/
def admits (options : WalkOptions) (path : Path) : Bool :=
  (Language.ofPath? path).any fun language => options.language.all (· = language)

end WalkOptions

namespace Path

/-- Drops one leading step to where the path starts. -/
def dropHere (path : Path) : Path :=
  match path.bytes with
  | 0x2E :: 0x2F :: rest => ⟨rest⟩
  | _ => path

def dropSlash : List UInt8 → List UInt8
  | 0x2F :: rest => rest
  | bytes => bytes

/-- A path as seen from a directory: without the path of the directory, if it
starts with that as it is written. A bare name stays as it is. -/
def seenFrom (path directory : Path) : List UInt8 :=
  let bytes := path.dropHere.bytes
  let base := directory.dropHere
  if base.agrees (ofString ".") || !bytes.contains slash then bytes
  else if base.bytes.isPrefixOf bytes then dropSlash (bytes.drop base.bytes.length)
  else bytes

/-- A path below a root, as seen from that root. -/
def seenFromRoot (path root : Path) : List UInt8 :=
  let bytes := path.dropHere.bytes
  let base := root.dropHere.bytes
  if root.agrees (ofString ".") then bytes
  else if base.isPrefixOf bytes then dropSlash (bytes.drop base.length)
  else dropSlash bytes

end Path

/-- Where the rules of an ignore file hold. -/
inductive RuleBase where
  /-- In a directory of the walk, written so. -/
  | within (directory : Path)
  /-- In a directory above the root of the walk; the names lead down to the root. -/
  | above (names : List Name)
  deriving Repr

namespace RuleBase

/-- An entry of a walk as the rules see it. -/
def relative (root path : Path) : RuleBase → List UInt8
  | .within directory => path.dropHere.seenFrom directory
  | .above names => Path.join names ++ Path.slash :: path.seenFromRoot root

end RuleBase

/-- The rules of the ignore files of one directory, or those of the user, by kind. -/
structure RuleLevel where
  base : RuleBase
  general : List Ignore.Rule
  repository : List Ignore.Rule
  exclude : List Ignore.Rule
  user : List Ignore.Rule
  deriving Repr

/-- The files in which a directory keeps rules. -/
def ruleFiles : List (List String) :=
  [[".ignore"], [".gitignore"], [".git", "info", "exclude"]]

namespace FileTree

/-- The rules in the file that the names lead to from a location. There are none
if there is no such file. -/
def rulesAt (tree : FileTree) (location : Location) (names : List String) : List Ignore.Rule :=
  let found := tree.follow linkLimit location (names.map fun name => (Path.ofString name).bytes)
  (found.toOption.bind tree.contentAt?).elim [] fun content => Ignore.rules content.toList

def ruleLevel (tree : FileTree) (base : RuleBase) (location : Location) : RuleLevel where
  base := base
  general := tree.rulesAt location [".ignore"]
  repository := tree.rulesAt location [".gitignore"]
  exclude := tree.rulesAt location [".git", "info", "exclude"]
  user := []

/-- The rules of the user, as they hold in the current directory. -/
def userLevel (tree : FileTree) (session : Session) : RuleLevel where
  base := .within (.absolute session.directory)
  general := []
  repository := []
  exclude := []
  user := tree.userRules session

/-- The levels of the directories above a location, the nearest first, and that of the
user. -/
def levelsAbove (tree : FileTree) (session : Session) (location : Location) : List RuleLevel :=
  ((List.range location.length).reverse.map fun depth =>
    tree.ruleLevel (.above (location.drop depth)) (location.take depth)) ++
    [tree.userLevel session]

end FileTree

/-- A walk through a tree from a root. -/
structure Walk where
  tree : FileTree
  session : Session
  options : WalkOptions
  root : Path

namespace Walk

/-- What one kind of ignore file says about an entry: the nearest level with a
rule that applies decides. -/
def verdictOf? (walk : Walk) (levels : List RuleLevel) (rules : RuleLevel → List Ignore.Rule)
    (path : Path) (isDirectory : Bool) : Option Ignore.Verdict :=
  levels.findSome? fun level =>
    Ignore.verdict? (rules level) (level.base.relative walk.root path) isDirectory

/-- What the rules say about an entry. Those of the user come last. -/
def verdict? (walk : Walk) (levels : List RuleLevel) (path : Path) (isDirectory : Bool) :
    Option Ignore.Verdict :=
  (((walk.verdictOf? levels (·.general) path isDirectory).or
    (walk.verdictOf? levels (·.repository) path isDirectory)).or
    (walk.verdictOf? levels (·.exclude) path isDirectory)).or
    (walk.verdictOf? levels (·.user) path isDirectory)

/-- Whether an entry is hidden or ignored. Rules that keep an entry keep it even
if its name starts with a dot. -/
def hides (walk : Walk) (levels : List RuleLevel) (name : Name) (path : Path)
    (isDirectory : Bool) : Bool :=
  match walk.verdict? levels path isDirectory with
  | some .ignored => true
  | some .kept => false
  | none => name.head? = some Path.dot

/-- Whether an entry is passed over. -/
def skips (walk : Walk) (levels : List RuleLevel) (name : Name) (path : Path)
    (isDirectory : Bool) : Bool :=
  (!walk.options.all && walk.hides levels name path isDirectory) ||
    path.isRejected walk.options.globs

/-- The levels of a directory of the walk and of those above it. -/
def enter (walk : Walk) (levels : List RuleLevel) (directory : Path) (location : Location) :
    List RuleLevel :=
  if walk.options.all then levels
  else walk.tree.ruleLevel (.within directory) location :: levels

/-- Puts the results for the entries of a directory in the order of their names. -/
def inNameOrder (found : List (Name × List Path)) : List Path :=
  (found.mergeSort fun left right => decide (left.1 ≤ right.1)).flatMap (·.2)

mutual

/-- The files below a node at the given depth, written as `path`. -/
def filesBelow (walk : Walk) (levels : List RuleLevel) (path : Path) (location : Location)
    (depth : Nat) : FileTree → List Path
  | .directory entries =>
      if walk.options.maxDepth.all (depth < ·) then
        inNameOrder (walk.filesOfEntries (walk.enter levels path location) path location
          (depth + 1) entries)
      else []
  | .file _ => []
  | .link _ => []

/-- The files that each entry of a directory contributes. -/
def filesOfEntries (walk : Walk) (levels : List RuleLevel) (directory : Path)
    (location : Location) (depth : Nat) : List (Name × FileTree) → List (Name × List Path)
  | [] => []
  | (name, node) :: rest =>
      let path := directory.child name
      let found :=
        if walk.skips levels name path node.isDirectory then []
        else if node.isFile then if walk.options.admits path then [path] else []
        else walk.filesBelow levels path (location ++ [name]) depth node
      (name, found) :: walk.filesOfEntries levels directory location depth rest

end

/-- The files of a walk that starts at a location. -/
def files (walk : Walk) (location : Location) : List Path :=
  match walk.tree.nodeAt? location with
  | some node =>
      let levels := if walk.options.all then [] else walk.tree.levelsAbove walk.session location
      walk.filesBelow levels walk.root location 0 node
  | none => []

end Walk

namespace FileTree

/-- The files that a root stands for: a file stands for itself, a directory for
the files of a walk from it. -/
def filesOfRoot (tree : FileTree) (session : Session) (options : WalkOptions) (root : Path) :
    Except Failure (List Path) :=
  match tree.locate session root with
  | .error _ => .error (.unreadable root .noSuchRoot)
  | .ok location =>
      match tree.nodeAt? location with
      | some (.file _) => .ok [root]
      | some (.directory _) => .ok (Walk.files ⟨tree, session, options, root⟩ location)
      | _ => .error (.unreadable root .noSuchRoot)

/-- The files that some roots stand for, one after the other. The first root
that is neither a file nor a directory is a failure of the whole. -/
def collect (tree : FileTree) (session : Session) (options : WalkOptions) (roots : List Path) :
    Except Failure (List Path) := do
  return (← roots.mapM (tree.filesOfRoot session options)).flatten

end FileTree

end Marginalia
