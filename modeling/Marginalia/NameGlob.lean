import Marginalia.Path
import Marginalia.Pattern.Basic

/-! # Name globs

Globs that reject names during a walk. A glob matches a whole name; its stars
and question marks stand for any character. Two stars are allowed only as a
whole component, where they stand for any number of components.
-/

namespace Marginalia

inductive NameGlob.Part where
  | char (c : Char)
  | anyChar
  | anyText
  | anyComponents
  | within (ranges : List (Char × Char))
  | outside (ranges : List (Char × Char))
  deriving DecidableEq, Repr

namespace NameGlob

/-- The members of a class: single characters and ranges. -/
def members : List Char → List (Char × Char)
  | low :: '-' :: high :: rest => (low, high) :: members rest
  | c :: rest => (c, c) :: members rest
  | [] => []

/-- Cuts a text at the closing bracket after its first character. -/
def untilBracket? (first : Char) (text : List Char) : Option (List Char × List Char) :=
  let inside := text.takeWhile (· ≠ ']')
  match text.drop inside.length with
  | [] => none
  | _ :: rest => some (first :: inside, rest)

/-- Reads a class from the text after its opening bracket. The first member can
be a closing bracket. -/
def readClass? (text : List Char) : Option (Part × List Char) :=
  match text with
  | '!' :: first :: rest =>
      (untilBracket? first rest).map fun (inside, rest) => (.outside (members inside), rest)
  | first :: rest =>
      if first = '!' then none
      else (untilBracket? first rest).map fun (inside, rest) => (.within (members inside), rest)
  | [] => none

theorem length_le_of_untilBracket? {first : Char} {text : List Char}
    {found : List Char × List Char} (h : untilBracket? first text = some found) :
    found.2.length ≤ text.length := by
  unfold untilBracket? at h
  simp only [] at h
  split at h
  · cases h
  · next rest hdrop =>
      obtain rfl := Option.some.inj h
      have hlength := congrArg List.length hdrop
      simp only [List.length_drop, List.length_cons] at hlength
      simp only []
      omega

theorem length_le_of_readClass? {text : List Char} {found : Part × List Char}
    (h : readClass? text = some found) : found.2.length ≤ text.length := by
  unfold readClass? at h
  split at h
  · obtain ⟨⟨inside, rest⟩, hcut, rfl⟩ := Option.map_eq_some_iff.mp h
    exact Nat.le_trans (length_le_of_untilBracket? hcut) (by simp; omega)
  · split at h
    · cases h
    · obtain ⟨⟨inside, rest⟩, hcut, rfl⟩ := Option.map_eq_some_iff.mp h
      exact Nat.le_trans (length_le_of_untilBracket? hcut) (by simp)
  · cases h

/-- Reads a glob, `atStart` telling whether a component starts here. -/
def read? (atStart : Bool) (text : List Char) : Option (List Part) :=
  match text with
  | [] => some []
  | '?' :: rest => (read? false rest).map (.anyChar :: ·)
  | '*' :: '*' :: '*' :: _ => none
  | ['*', '*'] => if atStart then some [.anyComponents] else none
  | '*' :: '*' :: c :: rest =>
      if atStart && c = '/' then (read? true rest).map (.anyComponents :: ·) else none
  | '*' :: rest => (read? false rest).map (.anyText :: ·)
  | '[' :: rest =>
      match _hclass : readClass? rest with
      | some (part, after) => (read? false after).map (part :: ·)
      | none => none
  | c :: rest => (read? (c = '/') rest).map (.char c :: ·)
termination_by text.length
decreasing_by
  all_goals first
    | exact Nat.lt_succ_of_le (length_le_of_readClass? _hclass)
    | (simp only [List.length_cons]; omega)

/-- Any text that ends where a component starts, or where the name ends. -/
def componentsPattern : Pattern :=
  .alt .empty
    (.seq (.star (.one .all)) (.alt (.char '/') (.look .textEnd)))

def Part.pattern : Part → Pattern
  | .char c => .char c
  | .anyChar => .one .all
  | .anyText => .star (.one .all)
  | .anyComponents => componentsPattern
  | .within ranges => .one (.ofRanges ranges)
  | .outside ranges => .one (.compl (.ofRanges ranges))

/-- The pattern of a glob, `none` if it is not a glob. -/
def pattern? (glob : String) : Option Pattern :=
  (read? true glob.toList).map fun parts => .sequence (parts.map Part.pattern)

/-- Whether a glob matches a name. What is not a glob matches nothing. -/
def matchesName (glob name : String) : Bool :=
  (pattern? glob).any fun pattern => pattern.matchesAll name.toList

end NameGlob

/-- Whether a walk passes over a path because of its name: the metadata
directory of a repository, or a name that one of the globs equals or matches. -/
def Path.isRejected (globs : List String) (path : Path) : Bool :=
  let name := String.ofList (Text.decodeLossy (path.fileName?.getD []))
  name == ".git" || globs.any fun glob => name == glob || NameGlob.matchesName glob name

end Marginalia
