import Marginalia.Pattern.Tree
import Marginalia.Text.White
import Marginalia.Text.Word

/-! # Reading patterns

From the text of a pattern to its tree. Groups are kept on a stack, so that the
text is read in one pass; brackets are read recursively.
-/

namespace Marginalia.Pattern

/-- Why a text is not a pattern. -/
inductive Problem where
  | unclosedGroup
  | unopenedGroup
  | unclosedClass
  | nothingToRepeat
  | unclosedCount
  | badCount
  | reversedCount
  | danglingEscape
  | unknownEscape
  | backreference
  | badCode
  | badClassEscape
  | badRange
  | unknownFlag
  | repeatedFlag
  | danglingFlag
  | badGroupName
  | duplicateGroupName
  | lookAround
  | badWordBorder
  | unknownProperty
  | tooDeep
  | unicodeNeeded
  | notText
  deriving DecidableEq, Repr

namespace Problem

def message : Problem → String
  | .unclosedGroup => "unclosed group"
  | .unopenedGroup => "unopened group"
  | .unclosedClass => "unclosed character class"
  | .nothingToRepeat => "repetition operator missing expression"
  | .unclosedCount => "unclosed counted repetition"
  | .badCount => "invalid repetition count"
  | .reversedCount => "invalid repetition count range, the start must be <= the end"
  | .danglingEscape => "incomplete escape sequence, reached end of pattern prematurely"
  | .unknownEscape => "unrecognized escape sequence"
  | .backreference => "backreferences are not supported"
  | .badCode => "invalid character code"
  | .badClassEscape => "invalid escape sequence found in character class"
  | .badRange => "invalid character class range"
  | .unknownFlag => "unrecognized flag"
  | .repeatedFlag => "duplicate flag"
  | .danglingFlag => "incomplete flags"
  | .badGroupName => "invalid capture group name"
  | .duplicateGroupName => "duplicate capture group name"
  | .lookAround => "look-around is not supported"
  | .badWordBorder => "invalid word boundary assertion"
  | .unknownProperty => "Unicode property not found"
  | .tooDeep => "exceeded the maximum number of nested groups"
  | .unicodeNeeded => "Unicode not allowed here"
  | .notText => "pattern can match invalid UTF-8"

end Problem

/-- A part of a pattern and the text after it. -/
abbrev Reading (α : Type) := α × List Char

/-- Drops blanks and comments, where the pattern says that they do not count. -/
def skipBlanks (verbose : Bool) (text : List Char) : List Char :=
  if verbose then go false text else text
where
  /-- Drops blanks, or a comment up to its newline. -/
  go (inComment : Bool) : List Char → List Char
    | [] => []
    | c :: rest =>
        if inComment then go (c ≠ '\n') rest
        else if Text.isWhite c then go false rest
        else if c = '#' then go true rest
        else c :: rest

/-- The characters that an escape makes literal although they mean something. -/
def metaCharacters : List Char :=
  "\\.+*?()|[]\x7b\x7d^$#&-~".toList

/-- Whether a backslash makes the character stand for itself. -/
def isEscapable (c : Char) : Bool :=
  metaCharacters.contains c ||
    (c.toNat < 0x80 && !c.isAlphanum && c ≠ '<' && c ≠ '>')

def hexValue? (c : Char) : Option Nat :=
  if c.isDigit then some (c.toNat - '0'.toNat)
  else if 'a' ≤ c ∧ c ≤ 'f' then some (c.toNat - 'a'.toNat + 10)
  else if 'A' ≤ c ∧ c ≤ 'F' then some (c.toNat - 'A'.toNat + 10)
  else none

/-- The character with a code, if there is one. -/
def charOfCode? (code : Nat) : Option Char :=
  if code.isValidChar then some (Char.ofNat code) else none

/-- Reads exactly `count` hexadecimal digits. -/
def readDigits (verbose : Bool) : (count value : Nat) → List Char → Except Problem (Reading Nat)
  | 0, value, text => .ok (value, text)
  | _ + 1, _, [] => .error .danglingEscape
  | count + 1, value, c :: rest =>
      match hexValue? c with
      | none => .error .badCode
      | some digit => readDigits verbose count (value * 16 + digit) (skipBlanks verbose rest)

/-- Reads hexadecimal digits up to a closing brace. -/
def readBraced (verbose : Bool) :
    (fuel : Nat) → (found : Option Nat) → List Char → Except Problem (Reading Nat)
  | 0, _, _ => .error .danglingEscape
  | fuel + 1, found, text =>
      match skipBlanks verbose text with
      | [] => .error .danglingEscape
      | '\x7d' :: rest =>
          match found with
          | some value => .ok (value, skipBlanks verbose rest)
          | none => .error .badCode
      | c :: rest =>
          match hexValue? c with
          | none => .error .badCode
          | some digit => readBraced verbose fuel (some (found.getD 0 * 16 + digit)) rest

/-- Reads a character code of the given number of digits, or one in braces. -/
def readCode (verbose : Bool) (digits : Nat) (text : List Char) :
    Except Problem (Reading (Char × Bool)) := do
  let (code, rest, braced) ←
    match skipBlanks verbose text with
    | [] => .error .danglingEscape
    | '\x7b' :: rest => do
        let (code, rest) ← readBraced verbose (rest.length + 1) none rest
        pure (code, rest, true)
    | text => do
        let (code, rest) ← readDigits verbose digits 0 text
        pure (code, rest, false)
  match charOfCode? code with
  | some c => pure ((c, !braced && digits = 2 && 0x80 ≤ code), rest)
  | none => .error .badCode

/-- Reads the name of a property: one character, or what stands in braces. -/
def readProperty (verbose : Bool) (text : List Char) : Except Problem (Reading String) :=
  match skipBlanks verbose text with
  | [] => .error .danglingEscape
  | '\\' :: _ => .error .unknownProperty
  | '\x7b' :: rest =>
      let name := rest.takeWhile (· ≠ '\x7d')
      match rest.drop name.length with
      | [] => .error .danglingEscape
      | _ :: rest => .ok (String.ofList (if verbose then name.filter (!Text.isWhite ·) else name),
          rest)
  | c :: rest => .ok (String.ofList [c], skipBlanks verbose rest)

/-- What an escape stands for. -/
inductive Escaped where
  | char (c : Char) (byte : Bool)
  | anchor (anchor : Anchor)
  | charClass (body : ClassTree)

/-- The names of the tests in braces after the escape of a word border. -/
def wordBorderNamed? : String → Option Anchor
  | "start" => some .wordStart
  | "end" => some .wordEnd
  | "start-half" => some .wordStartHalf
  | "end-half" => some .wordEndHalf
  | _ => none

/-- Reads the rest of a word border: a name in braces, unless the braces hold a
count. -/
def readWordBorder (verbose : Bool) (text : List Char) : Except Problem (Reading Anchor) :=
  match text with
  | '\x7b' :: rest =>
      let isNameChar := fun c : Char => c.isAlpha || c = '-'
      match skipBlanks verbose rest with
      | [] => .error .badWordBorder
      | c :: more =>
          if isNameChar c then
            let name := (c :: more).takeWhile isNameChar
            match skipBlanks verbose ((c :: more).drop name.length) with
            | '\x7d' :: after =>
                match wordBorderNamed? (String.ofList name) with
                | some anchor => .ok (anchor, after)
                | none => .error .badWordBorder
            | _ => .error .badWordBorder
          else .ok (.wordBorder, text)
  | _ => .ok (.wordBorder, text)

/-- Reads what follows a backslash. -/
def readEscape (verbose : Bool) (text : List Char) : Except Problem (Reading Escaped) :=
  match text with
  | [] => .error .danglingEscape
  | c :: rest =>
      let literal (c : Char) : Except Problem (Reading Escaped) := .ok (.char c false, rest)
      let letter (name : ClassLetter) (negated : Bool) : Except Problem (Reading Escaped) :=
        .ok (.charClass (.letter name negated), rest)
      let code (digits : Nat) : Except Problem (Reading Escaped) := do
        let ((c, byte), rest) ← readCode verbose digits rest
        pure (.char c byte, rest)
      let property (negated : Bool) : Except Problem (Reading Escaped) := do
        let (name, rest) ← readProperty verbose rest
        pure (.charClass (.property name negated), rest)
      if c.isDigit then .error .backreference
      else if isEscapable c then literal c
      else
        match c with
        | 'x' => code 2
        | 'u' => code 4
        | 'U' => code 8
        | 'p' => property false
        | 'P' => property true
        | 'd' => letter .digit false
        | 'D' => letter .digit true
        | 's' => letter .white false
        | 'S' => letter .white true
        | 'w' => letter .word false
        | 'W' => letter .word true
        | 'a' => literal '\x07'
        | 'f' => literal '\x0c'
        | 't' => literal '\t'
        | 'n' => literal '\n'
        | 'r' => literal '\r'
        | 'v' => literal '\x0b'
        | 'A' => .ok (.anchor .textStart, rest)
        | 'z' => .ok (.anchor .textEnd, rest)
        | 'b' => do
            let (anchor, rest) ← readWordBorder verbose rest
            pure (.anchor anchor, rest)
        | 'B' => .ok (.anchor .noWordBorder, rest)
        | '<' => .ok (.anchor .wordStart, rest)
        | '>' => .ok (.anchor .wordEnd, rest)
        | _ => .error .unknownEscape

/-- The named classes of ASCII characters. -/
def asciiClass? : String → Option (List (Char × Char))
  | "alnum" => some [('0', '9'), ('A', 'Z'), ('a', 'z')]
  | "alpha" => some [('A', 'Z'), ('a', 'z')]
  | "ascii" => some [('\x00', '\x7f')]
  | "blank" => some [('\t', '\t'), (' ', ' ')]
  | "cntrl" => some [('\x00', '\x1f'), ('\x7f', '\x7f')]
  | "digit" => some [('0', '9')]
  | "graph" => some [('!', '~')]
  | "lower" => some [('a', 'z')]
  | "print" => some [(' ', '~')]
  | "punct" => some [('!', '/'), (':', '@'), ('[', '\x60'), ('\x7b', '~')]
  | "space" => some [('\t', '\r'), (' ', ' ')]
  | "upper" => some [('A', 'Z')]
  | "word" => some [('0', '9'), ('A', 'Z'), ('_', '_'), ('a', 'z')]
  | "xdigit" => some [('0', '9'), ('A', 'F'), ('a', 'f')]
  | _ => none

/-- Reads a named class in brackets and colons, given the text after the opening
bracket; `none` if there is none. -/
def readAsciiClass? (text : List Char) : Option (ClassTree × List Char) :=
  match text with
  | ':' :: rest =>
      let (negated, rest) :=
        match rest with
        | '^' :: rest => (true, rest)
        | _ => (false, rest)
      let name := rest.takeWhile (· ≠ ':')
      match rest.drop name.length with
      | ':' :: ']' :: after =>
          (asciiClass? (String.ofList name)).map fun ranges => (.ascii ranges negated, after)
      | _ => none
  | _ => none

/-- Reads one member of a class: a character or an escape. -/
def readMember (verbose : Bool) (c : Char) (rest : List Char) : Except Problem (Reading Escaped) :=
  if c = '\\' then readEscape verbose rest else .ok (.char c false, rest)

/-- A member that stands for itself. -/
def memberTree : Escaped → Except Problem ClassTree
  | .char c byte => .ok (.char c byte)
  | .charClass body => .ok body
  | .anchor _ => .error .badClassEscape

/-- Reads a member of a class, or a range from one character to another. A hyphen
before the closing bracket or before another hyphen makes no range. -/
def readRange (verbose : Bool) (c : Char) (rest : List Char) : Except Problem (Reading ClassTree) := do
  let (low, rest) ← readMember verbose c rest
  match skipBlanks verbose rest with
  | [] => .error .unclosedClass
  | '-' :: more =>
      match skipBlanks verbose more with
      | [] => .error .unclosedClass
      | d :: after =>
          if d = ']' ∨ d = '-' then
            pure (← memberTree low, '-' :: more)
          else
            let (high, after) ← readMember verbose d after
            match low, high with
            | .char low lowByte, .char high highByte =>
                if low ≤ high then pure (.range low high (lowByte || highByte), after)
                else .error .badRange
            | _, _ => .error .badRange
  | rest => pure (← memberTree low, rest)

/-- Reads the hyphens that open a class. -/
def readHyphens (verbose : Bool) :
    (fuel : Nat) → (found : ClassTree) → List Char → Except Problem (Reading ClassTree)
  | 0, found, text => .ok (found, text)
  | fuel + 1, found, text =>
      match text with
      | [] => .error .unclosedClass
      | '-' :: rest =>
          readHyphens verbose fuel (.union found (.char '-' false)) (skipBlanks verbose rest)
      | _ => .ok (found, text)

/-- Joins the operand before an operator with the one after it. -/
def combine (left : Option (ClassOperator × ClassTree)) (right : ClassTree) : ClassTree :=
  match left with
  | none => right
  | some (operator, tree) => .combined operator tree right

mutual

/-- Reads a class, given the text after its opening bracket. A closing bracket
right at the start stands for itself. -/
def readBracket (verbose : Bool) : (fuel : Nat) → List Char → Except Problem (Reading ClassTree)
  | 0, _ => .error .unclosedClass
  | fuel + 1, text => do
      let (negated, text) :=
        match skipBlanks verbose text with
        | '^' :: rest => (true, skipBlanks verbose rest)
        | text => (false, text)
      let (hyphens, text) ← readHyphens verbose (text.length + 1) .nothing text
      let (start, text) :=
        match hyphens, text with
        | .nothing, ']' :: rest => (ClassTree.char ']' false, skipBlanks verbose rest)
        | _, _ => (hyphens, text)
      if text.isEmpty then .error .unclosedClass
      else
        let (body, rest) ← readMembers verbose fuel none start text
        pure (.bracket negated body, rest)

/-- Reads the members of a class up to its closing bracket. -/
def readMembers (verbose : Bool) : (fuel : Nat) → (left : Option (ClassOperator × ClassTree)) →
    (found : ClassTree) → List Char → Except Problem (Reading ClassTree)
  | 0, _, _, _ => .error .unclosedClass
  | fuel + 1, left, found, text =>
      match skipBlanks verbose text with
      | [] => .error .unclosedClass
      | ']' :: rest => .ok (combine left found, rest)
      | '[' :: rest =>
          match readAsciiClass? rest with
          | some (tree, rest) => readMembers verbose fuel left (.union found tree) rest
          | none => do
              let (tree, rest) ← readBracket verbose fuel rest
              readMembers verbose fuel left (.union found tree) rest
      | '&' :: '&' :: rest =>
          readMembers verbose fuel (some (.intersection, combine left found)) .nothing rest
      | '-' :: '-' :: rest =>
          readMembers verbose fuel (some (.difference, combine left found)) .nothing rest
      | '~' :: '~' :: rest =>
          readMembers verbose fuel (some (.symmetricDifference, combine left found)) .nothing rest
      | c :: rest => do
          let (tree, rest) ← readRange verbose c rest
          readMembers verbose fuel left (.union found tree) rest

end

/-- The largest count that a repetition can have. -/
def countLimit : Nat :=
  UInt32.size - 1

/-- Reads a decimal count with blanks around it. -/
def readCount (text : List Char) : Except Problem (Reading Nat) :=
  let text := text.dropWhile Text.isWhite
  let digits := text.takeWhile Char.isDigit
  let rest := (text.drop digits.length).dropWhile Text.isWhite
  let count := digits.foldl (fun n c => n * 10 + (c.toNat - '0'.toNat)) 0
  if digits.isEmpty ∨ countLimit < count then .error .badCount else .ok (count, rest)

/-- Drops the mark that makes a repetition take as little as it can. -/
def skipLazy : List Char → List Char
  | '?' :: rest => rest
  | text => text

/-- Reads the counts of a repetition, given the text after the opening brace. -/
def readCounts (verbose : Bool) (text : List Char) : Except Problem (Reading (Nat × Option Nat)) := do
  let text := skipBlanks verbose text
  if text.isEmpty then .error .unclosedCount
  let (least, text) ← readCount text
  let (most, text) ←
    match text with
    | ',' :: rest =>
        match skipBlanks verbose rest with
        | [] => .error .unclosedCount
        | '\x7d' :: rest => pure (none, '\x7d' :: rest)
        | rest => do
            let (most, rest) ← readCount rest
            pure (some most, rest)
    | _ => pure (some least, text)
  match text with
  | '\x7d' :: rest =>
      if most.all (least ≤ ·) then pure ((least, most), skipLazy (skipBlanks verbose rest))
      else .error .reversedCount
  | _ => .error .unclosedCount

/-- Reads flags up to the colon or parenthesis after them, which is left. -/
def readFlags :
    (negated : Option Bool) → (change : FlagChange) → List Char →
      Except Problem (Reading FlagChange)
  | _, _, [] => .error .danglingFlag
  | negated, change, c :: rest =>
      if c = ':' ∨ c = ')' then
        if negated = some true then .error .danglingFlag else .ok (change, c :: rest)
      else if c = '-' then
        if negated.isSome then .error .repeatedFlag else readFlags (some true) change rest
      else
        match Flag.ofLetter? c with
        | none => .error .unknownFlag
        | some flag =>
            if change.on.contains flag ∨ change.off.contains flag then .error .repeatedFlag
            else if negated.isSome then
              readFlags (some false) ⟨change.on, change.off ++ [flag]⟩ rest
            else readFlags none ⟨change.on ++ [flag], change.off⟩ rest

/-- Reads the name of a group up to the angle bracket after it. -/
def readGroupName (text : List Char) : Except Problem (Reading String) :=
  let name := text.takeWhile (· ≠ '>')
  let isFirst (c : Char) : Bool := c = '_' || (Text.isWord c && !Text.isDigit c)
  let isLater (c : Char) : Bool := Text.isWord c || ['.', '[', ']'].contains c
  match name, text.drop name.length with
  | _, [] => .error .badGroupName
  | [], _ => .error .badGroupName
  | first :: later, _ :: rest =>
      if isFirst first && later.all isLater then .ok (String.ofList name, rest)
      else .error .badGroupName

/-- What an opening parenthesis starts. -/
inductive GroupStart where
  | flags (change : FlagChange)
  | group (change : FlagChange)
  | named (name : String)

/-- Reads what follows an opening parenthesis, up to the content of the group. -/
def readGroupStart (verbose : Bool) (text : List Char) : Except Problem (Reading GroupStart) :=
  let named (text : List Char) : Except Problem (Reading GroupStart) := do
    let (name, rest) ← readGroupName text
    pure (.named name, rest)
  match skipBlanks verbose text with
  | '?' :: '=' :: _ => .error .lookAround
  | '?' :: '!' :: _ => .error .lookAround
  | '?' :: '<' :: '=' :: _ => .error .lookAround
  | '?' :: '<' :: '!' :: _ => .error .lookAround
  | '?' :: 'P' :: '<' :: rest => named rest
  | '?' :: '<' :: rest => named rest
  | '?' :: rest => do
      if rest.isEmpty then .error .unclosedGroup
      let (change, rest) ← readFlags none .none rest
      match rest with
      | ')' :: after =>
          if change = .none then .error .nothingToRepeat else pure (.flags change, after)
      | rest => pure (.group change, rest.drop 1)
  | rest => .ok (.group .none, rest)

/-- An open group: what stands before it, and the blanks rule to return to. -/
structure Frame where
  parts : List Tree
  branches : List Tree
  change : FlagChange
  verbose : Bool

/-- How far the reading of a pattern has come. Parts and branches are those of
the innermost open group, the latest first. -/
structure Progress where
  stack : List Frame
  parts : List Tree
  branches : List Tree
  verbose : Bool
  names : List String

namespace Progress

def start : Progress :=
  ⟨[], [], [], false, []⟩

def push (progress : Progress) (tree : Tree) : Progress :=
  { progress with parts := tree :: progress.parts }

/-- The content of the innermost open group. -/
def content (progress : Progress) : Tree :=
  .ofBranches (.ofParts progress.parts.reverse :: progress.branches).reverse

def openGroup (progress : Progress) (change : FlagChange) : Progress :=
  { progress with
    stack := ⟨progress.parts, progress.branches, change, progress.verbose⟩ :: progress.stack
    parts := []
    branches := []
    verbose := change.apply .verbose progress.verbose }

def closeGroup (progress : Progress) : Except Problem Progress :=
  match progress.stack with
  | [] => .error .unopenedGroup
  | frame :: stack =>
      .ok { progress with
        stack := stack
        parts := .group frame.change progress.content :: frame.parts
        branches := frame.branches
        verbose := frame.verbose }

/-- Starts another branch of the innermost group. -/
def nextBranch (progress : Progress) : Progress :=
  { progress with
    parts := []
    branches := .ofParts progress.parts.reverse :: progress.branches }

/-- Repeats the latest part. -/
def repeatLast (progress : Progress) (least : Nat) (most : Option Nat) :
    Except Problem Progress :=
  match progress.parts with
  | [] => .error .nothingToRepeat
  | part :: rest =>
      if part.isRepeatable then
        .ok { progress with parts := .repetition part least most :: rest }
      else .error .nothingToRepeat

def enter (progress : Progress) : GroupStart → Except Problem Progress
  | .flags change =>
      .ok { progress.push (.flags change) with
        verbose := change.apply .verbose progress.verbose }
  | .group change => .ok (progress.openGroup change)
  | .named name =>
      if progress.names.contains name then .error .duplicateGroupName
      else .ok { progress.openGroup .none with names := name :: progress.names }

end Progress

/-- The part that an escape stands for outside brackets. -/
def escapedTree : Escaped → Tree
  | .char c byte => .char c byte
  | .anchor anchor => .anchor anchor
  | .charClass body => .charClass body

/-- Reads the next part of a pattern, its first character being given. -/
def readPart (progress : Progress) (c : Char) (rest : List Char) : Except Problem (Reading Progress) :=
  let repetition (least : Nat) (most : Option Nat) : Except Problem (Reading Progress) := do
    pure (← progress.repeatLast least most, skipLazy rest)
  match c with
  | '(' => do
      let (start, rest) ← readGroupStart progress.verbose rest
      pure (← progress.enter start, rest)
  | ')' => do pure (← progress.closeGroup, rest)
  | '|' => .ok (progress.nextBranch, rest)
  | '[' => do
      let (tree, rest) ← readBracket progress.verbose (rest.length + 1) rest
      pure (progress.push (.charClass tree), rest)
  | '?' => repetition 0 (some 1)
  | '*' => repetition 0 none
  | '+' => repetition 1 none
  | '\x7b' => do
      let ((least, most), after) ← readCounts progress.verbose rest
      pure (← progress.repeatLast least most, after)
  | '\\' => do
      let (escaped, rest) ← readEscape progress.verbose rest
      pure (progress.push (escapedTree escaped), rest)
  | '.' => .ok (progress.push .dot, rest)
  | '^' => .ok (progress.push (.anchor .lineStart), rest)
  | '$' => .ok (progress.push (.anchor .lineEnd), rest)
  | c => .ok (progress.push (.char c false), rest)

/-- Reads parts up to the end of the text. Every part takes a character, so the
length of the text is enough fuel. -/
def readParts : (fuel : Nat) → Progress → List Char → Except Problem Progress
  | 0, _, _ => .error .unclosedGroup
  | fuel + 1, progress, text =>
      match skipBlanks progress.verbose text with
      | [] => .ok progress
      | c :: rest => do
          let (progress, rest) ← readPart progress c rest
          readParts fuel progress rest

/-- How deep a pattern may nest. -/
def depthLimit : Nat :=
  250

/-- Reads the text of a pattern. -/
def Tree.read (text : List Char) : Except Problem Tree := do
  let progress ← readParts (text.length + 1) .start text
  if !progress.stack.isEmpty then .error .unclosedGroup
  else if depthLimit < progress.content.depth then .error .tooDeep
  else pure progress.content

end Marginalia.Pattern
