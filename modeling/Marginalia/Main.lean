import Marginalia.Run

/-! # The command line program

Takes a picture of the files that a command line is about, of standard input and of
the environment, carries out the command line on it, and writes what comes out.

The top of the picture is that of the file system. It shows the current directory and
the paths of the command line with all that is below them, the files with rules above
these, and the files with rules of the user. A link that leads elsewhere leads nowhere.
-/

namespace Marginalia

/-- The names on the way from the top to a real path. -/
def locationOf (real : String) : Location :=
  (Path.split (Path.ofString real).bytes).filter (· ≠ [])

/-- A path that leads nowhere, as no file can have its name. -/
def nowhere : Path :=
  .ofString "\x00"

/-- What is at a real path, with all that is below it. Links lead to real paths. -/
partial def loadNode (real : String) : IO FileTree := do
  let here ← IO.FS.realPath real
  match (← here.metadata).type with
  | .dir =>
      let entries ← here.readDir
      return .directory (← entries.toList.mapM fun entry => do
        let name := (Path.ofString entry.fileName).bytes
        match (← entry.path.symlinkMetadata).type with
        | .symlink =>
            let target ← try
                pure (.ofString (toString (← IO.FS.realPath entry.path)))
              catch _ => pure nowhere
            return (name, .link target)
        | _ => return (name, ← loadNode (toString entry.path)))
  | .file => return .file (← IO.FS.readBinFile real)
  | _ => return .link nowhere

/-- Adds what a path leads to, if it leads anywhere. A path that does not lead there in
the picture becomes a link. -/
def addPath (session : Session) (picture : FileTree) (path : Path) : IO FileTree := do
  try
    let real := toString (← IO.FS.realPath path.display)
    let picture := FileTree.put (← loadNode real) (locationOf real) picture
    match picture.locate session path with
    | .ok _ => return picture
    | .error _ =>
        let whole :=
          if path.isAbsolute then path else (Path.absolute session.directory).child path.bytes
        return picture.insert whole (.link (.ofString real))
  catch _ => return picture

/-- The files with rules in the directories above what a path leads to. -/
def rulesAbove (path : Path) : IO (List Path) := do
  try
    let location := locationOf (toString (← IO.FS.realPath path.display))
    return (List.range location.length).flatMap fun depth =>
      ruleFiles.map (Path.absolute (location.take depth)).under
  catch _ => return []

/-- A picture for some paths, with the files that hold rules for them. -/
def loadPicture (session : Session) (paths : List Path) : IO FileTree := do
  let roots := .ofString "." :: paths
  let rules ← roots.mapM rulesAbove
  let files := roots ++ rules.flatten ++ session.configFiles ++ session.usualExcludes?.toList
  let picture ← files.foldlM (addPath session) (.directory [])
  ((picture.excludesFile? session).toList).foldlM (addPath session) picture

/-- Reads a stream to its end. -/
partial def readAll (stream : IO.FS.Stream) (read : ByteArray) : IO ByteArray := do
  let more ← stream.read 65536
  if more.isEmpty then return read else readAll stream (read ++ more)

def loadSession : IO Session := do
  return {
    directory := locationOf (toString (← IO.FS.realPath "."))
    home := (← IO.getEnv "HOME").map Path.ofString
    configHome := (← IO.getEnv "XDG_CONFIG_HOME").map Path.ofString }

def loadEnvironment : IO Environment := do
  return {
    noColour := (← IO.getEnv "NO_COLOR").isSome
    forceColour := (← IO.getEnv "FORCE_COLOR").isSome
    terminal := ← IO.getEnv "TERM" }

end Marginalia

open Marginalia in
def main (arguments : List String) : IO UInt32 := do
  let paths := arguments.map Path.ofString
  let input ←
    if paths.any Request.isInput then readAll (← IO.getStdin) ByteArray.empty
    else pure ByteArray.empty
  let session ← loadSession
  let world : World := ⟨← loadPicture session paths, session, input, ← loadEnvironment⟩
  let outcome := runArguments world (paths.map Path.bytes)
  (← IO.getStdout).putStr outcome.output
  (← IO.getStderr).putStr outcome.errors
  return UInt32.ofNat outcome.exitCode
