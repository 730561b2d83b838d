import Marginalia.CommentedFile

/-! # Selecting comments

Which comments are reported: by how they are written, and by what they say.
-/

namespace Marginalia

inductive Kind where
  | all
  | single
  | multi
  deriving DecidableEq, Repr, Inhabited

namespace Kind

def admits (kind : Kind) (comment : Comment) : Bool :=
  match kind with
  | .all => true
  | .single => !comment.multiline
  | .multi => comment.multiline

end Kind

/-- What patterns are, to those who use them: out of its text a pattern is made, and of
other texts it tells whether it occurs in them. -/
structure PatternEngine where
  compile : String → Except PatternFailure (String → Bool)

/-- The patterns of this library. -/
def Pattern.engine : PatternEngine where
  compile text := (parse text).map fun pattern other => pattern.occursIn other.toList

structure Selection where
  kind : Kind
  /-- What tells whether the text of a comment will do. -/
  pattern : Option (String → Bool)

namespace Selection

/-- Keeps every comment. -/
def everything : Selection :=
  ⟨.all, none⟩

/-- A selection from the text of its pattern. -/
def make (engine : PatternEngine) (kind : Kind) (pattern : Option String) :
    Except Failure Selection :=
  match pattern with
  | none => .ok ⟨kind, none⟩
  | some text =>
      match engine.compile text with
      | .ok occurs => .ok ⟨kind, some occurs⟩
      | .error reason => .error (.badPattern reason)

/-- Whether the selection cannot drop anything. -/
def isTrivial (selection : Selection) : Bool :=
  selection.kind = .all && selection.pattern.isNone

def admits (selection : Selection) (comment : Comment) : Bool :=
  selection.kind.admits comment &&
    selection.pattern.all fun occurs => occurs comment.text

def apply (selection : Selection) (file : CommentedFile) : CommentedFile :=
  { file with comments := file.comments.filter selection.admits }

theorem admits_of_isTrivial {selection : Selection} (h : selection.isTrivial = true)
    (comment : Comment) : selection.admits comment = true := by
  obtain ⟨kind, pattern⟩ := selection
  simp only [isTrivial, Bool.and_eq_true, decide_eq_true_eq, Option.isNone_iff_eq_none] at h
  obtain ⟨rfl, rfl⟩ := h
  rfl

end Selection

end Marginalia
