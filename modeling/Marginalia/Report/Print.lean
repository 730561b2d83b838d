import Marginalia.Report.Entry
import Marginalia.Report.Text
import Marginalia.Selection

/-! # Printing results

What is written for the results of a request: a text report on standard output
with the failures on standard error, or a JSON report that holds both.
-/

namespace Marginalia.Report

inductive Format where
  | text
  | json
  deriving DecidableEq, Repr

structure Settings where
  colours : Bool
  format : Format
  selection : Selection
  /-- A text report ends with a tally. -/
  summary : Bool

namespace Settings

def default : Settings :=
  ⟨true, .text, .everything, true⟩

end Settings

/-- What goes to standard output and to standard error. -/
structure Printed where
  output : String
  errors : String
  deriving DecidableEq, Repr

/-- A message of the program. -/
def complaint (message : String) : String :=
  "gleaner: " ++ message ++ "\n"

/-- The results with only the comments that are selected. -/
def select (selection : Selection) (results : List FileResult) : List FileResult :=
  results.map (·.map selection.apply)

def resultRecords : FileResult → List Span
  | .ok file => fileRecords file
  | .error _ => []

def resultComplaint : FileResult → String
  | .ok _ => ""
  | .error failure => complaint failure.message

/-- How many comments and files some results hold. -/
def tally (results : List FileResult) : Tally :=
  results.foldl (fun tally result =>
    match result with
    | .ok file => tally.add file
    | .error _ => tally) .zero

/-- A text report: the records of the files, and the tally if it is wanted. -/
def textSpans (summarised : Bool) (results : List FileResult) : List Span :=
  results.flatMap resultRecords ++ if summarised then summary (tally results) else []

def print (settings : Settings) (results : List FileResult) : Printed :=
  let results := select settings.selection results
  match settings.format with
  | .json => ⟨json results ++ "\n", ""⟩
  | .text =>
      ⟨render settings.colours (textSpans settings.summary results),
        String.join (results.map resultComplaint)⟩

end Marginalia.Report
