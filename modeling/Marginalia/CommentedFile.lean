import Marginalia.Failure
import Marginalia.Language

/-! # Files with their comments -/

namespace Marginalia

/-- A file, the language it was read as, and its comments in the order in which
they stand. -/
structure CommentedFile where
  path : Path
  language : Language
  comments : List Comment
  deriving DecidableEq, Repr

/-- What became of one file. -/
abbrev FileResult := Except Failure CommentedFile

end Marginalia
