import Marginalia.CommentedFile
import Marginalia.Json

/-! # JSON reports

An array with one entry for each file: its path, language and comments, or its
path and what went wrong.
-/

namespace Marginalia.Report

def commentJson (comment : Comment) : Json :=
  .object [("text", .string comment.text), ("line", .number comment.line),
    ("multiline", .bool comment.multiline)]

def entry : FileResult → Json
  | .ok file =>
      .object [("path", .string file.path.display), ("language", .string file.language.id),
        ("comments", .array (file.comments.map commentJson))]
  | .error failure =>
      .object [("path", (failure.path?.map Path.display).elim .null .string),
        ("error", .string failure.message)]

def entries (results : List FileResult) : Json :=
  .array (results.map entry)

def json (results : List FileResult) : String :=
  (entries results).pretty 0

end Marginalia.Report
