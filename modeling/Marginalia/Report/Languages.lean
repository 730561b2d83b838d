import Marginalia.Language

/-! # The table of languages -/

namespace Marginalia.Report

/-- Fills a column with blanks up to a width. -/
def column (width : Nat) (text : String) : String :=
  text ++ String.ofList (List.replicate (width - text.length) ' ')

def lineColumn (grammar : Grammar) : String :=
  grammar.line.elim "-" fun rule => rule.marker.toString

def blockColumn (grammar : Grammar) : String :=
  grammar.block.elim "-" fun rule =>
    rule.opening.toString ++ " " ++ rule.closing.toString ++
      if rule.nesting then " (nesting)" else ""

def languageRow (language : Language) : String :=
  column 12 language.name ++ column 6 language.extension ++
    column 6 (lineColumn language.grammar) ++ blockColumn language.grammar ++ "\n"

/-- A line for each language: its name, file extension, and comment delimiters. -/
def languageTable : String :=
  String.join (Language.all.map languageRow)

end Marginalia.Report
