/-! # Styled text

Text in pieces, some of them coloured. Whether the colours are shown is decided
only when the pieces are rendered.
-/

namespace Marginalia.Report

inductive Colour where
  | magenta
  | green
  | cyan
  deriving DecidableEq, Repr

structure Span where
  colour : Option Colour
  text : String
  deriving DecidableEq, Repr

/-- The sequence that returns a terminal to its usual colours. -/
def reset : String :=
  "\x1b[0m"

/-- The sequence that switches a terminal to a colour. -/
def Colour.sequence : Colour → String
  | .magenta => "\x1b[35m"
  | .green => "\x1b[32m"
  | .cyan => "\x1b[36m"

namespace Span

def plain (text : String) : Span :=
  ⟨none, text⟩

def coloured (colour : Colour) (text : String) : Span :=
  ⟨some colour, text⟩

/-- The span as it is written; colours are set from a reset state and reset
after the text. -/
def render (colours : Bool) (span : Span) : String :=
  match span.colour with
  | some colour =>
      if colours then reset ++ colour.sequence ++ span.text ++ reset else span.text
  | none => span.text

end Span

def render (colours : Bool) (spans : List Span) : String :=
  String.join (spans.map (·.render colours))

end Marginalia.Report
