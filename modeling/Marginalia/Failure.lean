import Marginalia.Path
import Marginalia.Pattern.Compile
import Marginalia.Scan

/-! # Failures

Why a file, or a whole request, yields no comments, and the one message for each
cause.
-/

namespace Marginalia

/-- Why the content of a path cannot be had. -/
inductive ReadFailure where
  | missing
  | notDirectory
  | directory
  | linkLoop
  | notUtf8
  /-- A place to start from is neither a file nor a directory. -/
  | noSuchRoot
  | other (message : String)
  deriving DecidableEq, Repr

namespace ReadFailure

def message : ReadFailure → String
  | .missing => "No such file or directory (os error 2)"
  | .notDirectory => "Not a directory (os error 20)"
  | .directory => "Is a directory (os error 21)"
  | .linkLoop => "Too many levels of symbolic links (os error 40)"
  | .notUtf8 => "stream did not contain valid UTF-8"
  | .noSuchRoot => "No such file or directory"
  | .other message => message

end ReadFailure

inductive Failure where
  | unreadable (path : Path) (reason : ReadFailure)
  | unknownLanguage (path : Path)
  | tooLarge (path : Path) (size limit : Nat)
  | unterminated (path : Path) (reason : UnterminatedComment)
  | badPattern (reason : PatternFailure)
  deriving DecidableEq, Repr

namespace Failure

def message : Failure → String
  | .unreadable path reason => "cannot read '" ++ path.display ++ "': " ++ reason.message
  | .unknownLanguage path => "cannot infer language of '" ++ path.display ++ "'; use --language"
  | .tooLarge path size limit =>
      "'" ++ path.display ++ "' is " ++ ToString.toString size ++ " bytes, over the " ++
        ToString.toString limit ++ " byte limit"
  | .unterminated path reason => path.display ++ ": " ++ reason.message
  | .badPattern reason => "invalid --matching pattern: " ++ reason.message

/-- The file that the failure is about. -/
def path? : Failure → Option Path
  | .unreadable path _ => some path
  | .unknownLanguage path => some path
  | .tooLarge path _ _ => some path
  | .unterminated path _ => some path
  | .badPattern _ => none

/-- The message of the underlying cause, where there is one. -/
def cause? : Failure → Option String
  | .unreadable _ reason => some reason.message
  | .unterminated _ reason => some reason.message
  | .badPattern reason => some reason.message
  | .unknownLanguage _ => none
  | .tooLarge _ _ _ => none

end Failure

end Marginalia
