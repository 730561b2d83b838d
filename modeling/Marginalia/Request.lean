import Marginalia.Language
import Marginalia.Text.Unsigned

/-! # Requests

What the command line asks for, and how its arguments are read: from left to
right, options anywhere among the paths, until two hyphens end the options.
-/

namespace Marginalia

/-- When colours are shown. -/
inductive ColourMode where
  | auto
  | always
  | never
  deriving DecidableEq, Repr

structure Request where
  paths : List Path
  language : Option Language
  all : Bool
  globs : List String
  level : Option Nat
  jobs : Nat
  maxFileSize : Option String
  json : Bool
  multilineOnly : Bool
  singleLineOnly : Bool
  matching : Option String
  noSummary : Bool
  colour : ColourMode
  verbosity : Nat
  listLanguages : Bool
  deriving Repr

namespace Request

/-- The request of an empty command line, apart from the default path. -/
def initial : Request where
  paths := []
  language := none
  all := false
  globs := []
  level := none
  jobs := 0
  maxFileSize := none
  json := false
  multilineOnly := false
  singleLineOnly := false
  matching := none
  noSummary := false
  colour := .auto
  verbosity := 0
  listLanguages := false

/-- The options that stand for themselves. -/
inductive Switch where
  | all
  | json
  | multilineOnly
  | singleLineOnly
  | noSummary
  | verbose
  | listLanguages
  deriving DecidableEq, Repr

/-- The options that take a value. -/
inductive Setting where
  | language
  | ignore
  | level
  | jobs
  | maxFileSize
  | matching
  | colour
  deriving DecidableEq, Repr

/-- An option of either sort, or a question about the program itself. -/
inductive Parameter where
  | switch (switch : Switch)
  | setting (setting : Setting)
  | help
  | version
  deriving DecidableEq, Repr

def longParameter? : String → Option Parameter
  | "all" => some (.switch .all)
  | "json" => some (.switch .json)
  | "multiline-only" => some (.switch .multilineOnly)
  | "single-line-only" => some (.switch .singleLineOnly)
  | "no-summary" => some (.switch .noSummary)
  | "verbose" => some (.switch .verbose)
  | "list-languages" => some (.switch .listLanguages)
  | "language" => some (.setting .language)
  | "ignore" => some (.setting .ignore)
  | "level" => some (.setting .level)
  | "jobs" => some (.setting .jobs)
  | "max-file-size" => some (.setting .maxFileSize)
  | "matching" => some (.setting .matching)
  | "color" => some (.setting .colour)
  | "help" => some .help
  | "version" => some .version
  | _ => none

def shortParameter? : Char → Option Parameter
  | 'a' => some (.switch .all)
  | 'v' => some (.switch .verbose)
  | 'l' => some (.setting .language)
  | 'I' => some (.setting .ignore)
  | 'L' => some (.setting .level)
  | 'j' => some (.setting .jobs)
  | 'h' => some .help
  | 'V' => some .version
  | _ => none

/-- Why reading stops before the end of the arguments. -/
inductive Stop where
  /-- The arguments are not a command line. -/
  | misuse
  | help
  | version
  deriving DecidableEq, Repr

def colourMode? : String → Option ColourMode
  | "auto" => some .auto
  | "always" => some .always
  | "never" => some .never
  | _ => none

/-- A request under construction, and the options given so far. -/
structure Draft where
  request : Request
  given : List Parameter

namespace Draft

def start : Draft :=
  ⟨initial, []⟩

/-- Notes that an option is given. Only some can be given again. -/
def note (draft : Draft) (parameter : Parameter) : Except Stop Draft :=
  let isRepeatable := parameter = .switch .verbose || parameter = .setting .ignore
  if draft.given.contains parameter && !isRepeatable then .error .misuse
  else .ok { draft with given := parameter :: draft.given }

def turnOn (draft : Draft) (switch : Switch) : Except Stop Draft := do
  let draft ← draft.note (.switch switch)
  let request := draft.request
  return { draft with
    request :=
      match switch with
      | .all => { request with all := true }
      | .json => { request with json := true }
      | .multilineOnly => { request with multilineOnly := true }
      | .singleLineOnly => { request with singleLineOnly := true }
      | .noSummary => { request with noSummary := true }
      | .verbose => { request with verbosity := request.verbosity + 1 }
      | .listLanguages => { request with listLanguages := true } }

/-- The request with a setting's value, `none` if the value does not fit. -/
def withValue? (request : Request) (setting : Setting) (value : String) : Option Request :=
  match setting with
  | .language =>
      (Language.ofName? value).map fun language => { request with language := some language }
  | .ignore => some { request with globs := request.globs ++ [value] }
  | .level => (Text.unsigned? value.toList).map fun level => { request with level := some level }
  | .jobs => (Text.unsigned? value.toList).map fun jobs => { request with jobs := jobs }
  | .maxFileSize => some { request with maxFileSize := some value }
  | .matching => some { request with matching := some value }
  | .colour => (colourMode? value).map fun mode => { request with colour := mode }

def assign (draft : Draft) (setting : Setting) (value : String) : Except Stop Draft := do
  let draft ← draft.note (.setting setting)
  match withValue? draft.request setting value with
  | some request => return { draft with request := request }
  | none => throw .misuse

/-- Adds a path, which cannot be empty. -/
def addPath (draft : Draft) (path : List UInt8) : Except Stop Draft :=
  if path.isEmpty then .error .misuse
  else
    .ok { draft with
      request := { draft.request with paths := draft.request.paths ++ [⟨path⟩] } }

/-- The request, if nothing in it conflicts. Without a path it is about the
current directory. -/
def finish (draft : Draft) : Except Stop Request :=
  let request := draft.request
  if request.multilineOnly && request.singleLineOnly then .error .misuse
  else if request.paths.isEmpty then .ok { request with paths := [Path.ofString "."] }
  else .ok request

end Draft

/-- What one argument does to a draft: it is dealt with, or its setting still
needs the next argument. -/
inductive Effect where
  | done (draft : Draft)
  | needs (setting : Setting) (draft : Draft)

/-- Reads a cluster of short options. What follows a setting's letter is its
value, after an equals sign if there is one. -/
def readCluster (draft : Draft) : List Char → Except Stop Effect
  | [] => .ok (.done draft)
  | c :: rest =>
      match shortParameter? c with
      | none => .error .misuse
      | some .help => .error .help
      | some .version => .error .version
      | some (.switch switch) => do
          readCluster (← draft.turnOn switch) rest
      | some (.setting setting) => do
          match rest with
          | [] => return .needs setting draft
          | '=' :: value => return .done (← draft.assign setting (String.ofList value))
          | value => return .done (← draft.assign setting (String.ofList value))

/-- Reads a long option without its hyphens. What follows an equals sign is its
value. -/
def readLong (draft : Draft) (text : List Char) : Except Stop Effect :=
  let name := text.takeWhile (· ≠ '=')
  let value? : Option String :=
    match text.drop name.length with
    | [] => none
    | _ :: value => some (String.ofList value)
  match longParameter? (String.ofList name), value? with
  | some .help, none => .error .help
  | some .version, none => .error .version
  | some (.switch switch), none => do return .done (← draft.turnOn switch)
  | some (.setting setting), none => .ok (.needs setting draft)
  | some (.setting setting), some value => do return .done (← draft.assign setting value)
  | _, _ => .error .misuse

def hyphen : UInt8 := 0x2D

/-- Whether an argument is read as options rather than as a path or a value. A
lone hyphen is not. -/
def looksLikeOption : List UInt8 → Bool
  | 0x2D :: _ :: _ => true
  | _ => false

/-- Reads an argument that looks like an option. -/
def readOption (draft : Draft) (argument : List UInt8) : Except Stop Effect :=
  match Text.decode? argument with
  | none => .error .misuse
  | some text =>
      match text.toList with
      | '-' :: '-' :: rest => readLong draft rest
      | '-' :: rest => readCluster draft rest
      | _ => .error .misuse

/-- Reads the arguments from left to right. -/
def readArguments (draft : Draft) : List (List UInt8) → Except Stop Draft
  | [] => .ok draft
  | argument :: rest =>
      if argument = [hyphen, hyphen] then rest.foldlM Draft.addPath draft
      else if looksLikeOption argument then
        match readOption draft argument with
        | .error stop => .error stop
        | .ok (.done draft) => readArguments draft rest
        | .ok (.needs setting draft) =>
            match rest with
            | [] => .error .misuse
            | value :: rest =>
                if looksLikeOption value then .error .misuse
                else
                  match (Text.decode? value).elim (.error .misuse) (draft.assign setting) with
                  | .error stop => .error stop
                  | .ok draft => readArguments draft rest
      else
        match draft.addPath argument with
        | .error stop => .error stop
        | .ok draft => readArguments draft rest

/-- The request that a command line makes. -/
def parse (arguments : List (List UInt8)) : Except Stop Request := do
  (← readArguments .start arguments).finish

end Request

end Marginalia
