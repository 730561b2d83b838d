import Marginalia.Segment
import Marginalia.Path
import Marginalia.Text.Lower

/-! # Languages

The languages whose comments can be read: their names, the file extensions that
stand for them, and their comment grammars.
-/

namespace Marginalia

inductive Language where
  | erlang
  | lisp
  | ocaml
  | fsharp
  | haskell
  | c
  | cpp
  | java
  | javascript
  | go
  | shell
  deriving DecidableEq, Repr, Inhabited

namespace Language

/-- Every language, in the order in which they are listed. -/
def all : List Language :=
  [.erlang, .lisp, .ocaml, .fsharp, .haskell, .c, .cpp, .java, .javascript, .go, .shell]

/-- The identifier used in machine-readable output. -/
def id : Language → String
  | .erlang => "erlang"
  | .lisp => "lisp"
  | .ocaml => "ocaml"
  | .fsharp => "fsharp"
  | .haskell => "haskell"
  | .c => "c"
  | .cpp => "cpp"
  | .java => "java"
  | .javascript => "javascript"
  | .go => "go"
  | .shell => "shell"

/-- The name shown to people. -/
def name : Language → String
  | .erlang => "Erlang"
  | .lisp => "Lisp"
  | .ocaml => "OCaml"
  | .fsharp => "F#"
  | .haskell => "Haskell"
  | .c => "C"
  | .cpp => "C++"
  | .java => "Java"
  | .javascript => "JavaScript"
  | .go => "Go"
  | .shell => "Shell"

/-- The file extensions of a language, the usual one first. -/
def extensions : Language → List String
  | .erlang => ["erl", "hrl", "escript"]
  | .lisp => ["lisp", "lsp", "cl", "el", "scm", "ss", "rkt", "clj", "cljs", "cljc"]
  | .ocaml => ["ml", "mli", "mll", "mly"]
  | .fsharp => ["fs", "fsi", "fsx"]
  | .haskell => ["hs", "lhs"]
  | .c => ["c", "h"]
  | .cpp => ["cpp", "cxx", "cc", "hpp", "hxx", "hh"]
  | .java => ["java"]
  | .javascript => ["js", "jsx", "mjs", "cjs", "ts", "tsx", "mts", "cts"]
  | .go => ["go"]
  | .shell => ["sh", "bash", "zsh"]

/-- The usual file extension. -/
def extension (language : Language) : String :=
  language.extensions.headD ""

/-- The lower-case words by which a language can be asked for, besides its file
extensions. -/
def aliases : Language → List String
  | .erlang => ["erlang"]
  | .lisp => ["lisp", "common-lisp", "scheme", "clojure", "elisp"]
  | .ocaml => ["ocaml"]
  | .fsharp => ["fsharp", "f#"]
  | .haskell => ["haskell"]
  | .c => ["c"]
  | .cpp => ["cpp", "c++"]
  | .java => ["java"]
  | .javascript => ["javascript", "typescript"]
  | .go => ["go", "golang"]
  | .shell => ["shell", "bash", "zsh"]

def lowered (text : String) : String :=
  String.ofList (text.toList.map Text.lowerToAscii)

/-- The language of a file extension, in any letter case. -/
def ofExtension? (extension : String) : Option Language :=
  all.find? fun language => language.extensions.contains (lowered extension)

/-- The language that a word asks for: one of its names or file extensions, in
any letter case, with white space around it. -/
def ofName? (word : String) : Option Language :=
  let word := String.ofList (Text.trim word.toList)
  (all.find? fun language => language.aliases.contains (lowered word)).or (ofExtension? word)

/-- The language that a path's extension stands for. -/
def ofPath? (path : Path) : Option Language :=
  (path.extension?.bind Text.decode?).bind ofExtension?

def ofId? (id : String) : Option Language :=
  all.find? fun language => language.id == id

/-- A literal in double quotes, with backslash escapes. -/
def doubleQuoted : LiteralRule :=
  ⟨'"', some '\\'⟩

/-- A character literal that holds a double quote, plain or escaped. -/
def quoteCharacters : List Token :=
  [⟨'\'', ['"', '\'']⟩, ⟨'\'', ['\\', '"', '\'']⟩]

def slashes : LineRule :=
  ⟨⟨'/', ['/']⟩, false, false⟩

def starBlock : BlockRule :=
  ⟨⟨'/', ['*']⟩, ⟨'*', ['/']⟩, false⟩

def parenthesisBlock : BlockRule :=
  ⟨⟨'(', ['*']⟩, ⟨'*', [')']⟩, false⟩

/-- Literals in double or single quotes, slash comments. -/
def cFamily : Grammar where
  verbatim := []
  literals := [doubleQuoted, ⟨'\'', some '\\'⟩]
  line := some slashes
  block := some starBlock

/-- How a language writes its literals and comments. -/
def grammar : Language → Grammar
  | .erlang =>
      { verbatim := [⟨'$', ['\\', '"']⟩, ⟨'$', ['"']⟩, ⟨'$', ['%']⟩]
        literals := [doubleQuoted]
        line := some ⟨⟨'%', []⟩, true, false⟩
        block := none }
  | .lisp =>
      { verbatim := [⟨'#', ['\\', '"']⟩, ⟨'#', ['\\', ';']⟩]
        literals := [doubleQuoted]
        line := some ⟨⟨';', []⟩, true, false⟩
        block := some ⟨⟨'#', ['|']⟩, ⟨'|', ['#']⟩, false⟩ }
  | .ocaml =>
      { verbatim := quoteCharacters
        literals := [doubleQuoted]
        line := none
        block := some parenthesisBlock }
  | .fsharp =>
      { verbatim := quoteCharacters ++ [⟨'(', ['*', ')']⟩]
        literals := [doubleQuoted]
        line := some slashes
        block := some parenthesisBlock }
  | .haskell =>
      { verbatim := quoteCharacters
        literals := [doubleQuoted]
        line := some ⟨⟨'-', ['-']⟩, false, false⟩
        block := some ⟨⟨'{', ['-']⟩, ⟨'-', ['}']⟩, true⟩ }
  | .c | .cpp | .java => cFamily
  | .go => { cFamily with literals := cFamily.literals ++ [⟨'\x60', none⟩] }
  | .javascript => { cFamily with literals := cFamily.literals ++ [⟨'\x60', some '\\'⟩] }
  | .shell =>
      { verbatim := []
        literals := [doubleQuoted, ⟨'\'', none⟩]
        line := some ⟨⟨'#', []⟩, true, true⟩
        block := none }

theorem ofId?_id (language : Language) : ofId? language.id = some language := by
  cases language <;> decide

end Language

end Marginalia
