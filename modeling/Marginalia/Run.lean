import Marginalia.FileSize
import Marginalia.Report.Languages
import Marginalia.Report.Print
import Marginalia.Request
import Marginalia.Source

/-! # Running a request

Everything that a command line does, as a function of what it can see: the file
tree, standard input, and what it is started with. What patterns are is left open
until the whole program is put together.
-/

namespace Marginalia

/-- What the environment says about colours. -/
structure Environment where
  noColour : Bool
  forceColour : Bool
  /-- The kind of terminal, if there is a word for it. -/
  terminal : Option String
  deriving DecidableEq, Repr

namespace Environment

def dumb : String :=
  "dumb"

/-- Whether colours are wanted. Standard output is taken not to be a terminal. -/
def wantsColour (environment : Environment) : ColourMode → Bool
  | .always => true
  | .never => false
  | .auto => !environment.noColour && environment.forceColour

/-- Whether colours can be shown at all. -/
def showsColour (environment : Environment) : Bool :=
  !environment.noColour && environment.terminal.any (· ≠ dumb)

end Environment

/-- What a request can see. -/
structure World where
  tree : FileTree
  session : Session
  standardInput : ByteArray
  environment : Environment

structure Outcome where
  exitCode : Nat
  output : String
  errors : String
  deriving DecidableEq, Repr

namespace Outcome

def success (output : String) : Outcome :=
  ⟨0, output, ""⟩

/-- The program gives up with a message. -/
def refusal (message : String) : Outcome :=
  ⟨1, "", Report.complaint message⟩

end Outcome

/-- The comments of standard input. -/
def scanInput (language : Language) (input : ByteArray) : FileResult :=
  match String.fromUTF8? input with
  | some text => scanText .standardInput language (dropByteOrderMark text)
  | none => .error (.unreadable .standardInput .notUtf8)

namespace Request

def walkOptions (request : Request) : WalkOptions where
  all := request.all
  maxDepth := request.level
  globs := request.globs
  language := request.language
  workers := request.jobs

def kind (request : Request) : Kind :=
  if request.multilineOnly then .multi
  else if request.singleLineOnly then .single
  else .all

def isInput (path : Path) : Bool :=
  path.agrees .standardInput

/-- The results for one path, and what it leaves of standard input. -/
def pathResults (request : Request) (tree : FileTree) (session : Session) (limit : Nat)
    (input : ByteArray) (path : Path) : List FileResult × ByteArray :=
  match request.language, isInput path with
  | some language, true => ([scanInput language input], ByteArray.empty)
  | _, _ =>
      match tree.run session limit request.walkOptions [path] with
      | .ok results => (results, input)
      | .error failure => ([.error failure], input)

/-- The results for some paths, one after the other. Standard input can be read
once. -/
def results (request : Request) (tree : FileTree) (session : Session) (limit : Nat)
    (input : ByteArray) : List Path → List FileResult
  | [] => []
  | path :: rest =>
      let (found, input) := request.pathResults tree session limit input path
      found ++ request.results tree session limit input rest

/-- The size limit of a request. -/
def sizeLimit (request : Request) : Except String Nat :=
  match request.maxFileSize with
  | none => .ok defaultSizeLimit
  | some text =>
      match FileSize.parse text with
      | .ok limit => .ok limit
      | .error problem =>
          .error ("invalid --max-file-size '" ++ text ++ "': " ++ problem.message)

def settings (request : Request) (environment : Environment) (selection : Selection) :
    Report.Settings where
  colours := !request.json && environment.wantsColour request.colour && environment.showsColour
  format := if request.json then .json else .text
  selection := selection
  summary := !request.noSummary

def isFailure : FileResult → Bool
  | .ok _ => false
  | .error _ => true

/-- Collects, reads, selects and prints, once the request has been checked. -/
def perform (request : Request) (world : World) (limit : Nat) (selection : Selection) :
    Outcome :=
  let results :=
    request.results world.tree world.session limit world.standardInput request.paths
  let printed := Report.print (request.settings world.environment selection) results
  ⟨if results.any isFailure then 1 else 0, printed.output, printed.errors⟩

/-- Carries out a request. The size limit is checked first, then that standard
input has a language, then the pattern. -/
def run (request : Request) (engine : PatternEngine) (world : World) : Outcome :=
  if request.listLanguages then .success Report.languageTable
  else
    match request.sizeLimit with
    | .error message => .refusal message
    | .ok limit =>
        if request.language.isNone && request.paths.any isInput then
          .refusal "reading from stdin requires --language"
        else
          match Selection.make engine request.kind request.matching with
          | .error failure => .refusal failure.message
          | .ok selection => request.perform world limit selection

end Request

/-- The line that tells the version. -/
def versionLine : String :=
  "gleaner 0.1.0\n"

/-- The line that tells how the program is used. The options are not listed. -/
def helpText : String :=
  "Usage: gleaner [OPTIONS] [PATHS]...\n"

/-- Carries out a command line. -/
def runArguments (world : World) (arguments : List (List UInt8)) : Outcome :=
  match Request.parse arguments with
  | .ok request => request.run Pattern.engine world
  | .error .version => .success versionLine
  | .error .help => .success helpText
  | .error .misuse => ⟨2, "", "error: the arguments are not a command line\n" ++ helpText⟩

end Marginalia
