import Mathlib
import Marginalia.Run

/-! # What a request reports

A request that passes its checks turns the results for its paths into an outcome.
What is written can be told from the files that were read and the messages of the
failures, whatever comments are selected.
-/

namespace Marginalia

namespace Report

/-! ## Results -/

/-- The files among some results. -/
def filesRead (results : List FileResult) : List CommentedFile :=
  results.filterMap Except.toOption

/-- The message of a result, if it is a failure. -/
def message? : FileResult → Option String
  | .ok _ => none
  | .error failure => some failure.message

/-- The messages of the failures among some results. -/
def messages (results : List FileResult) : List String :=
  results.filterMap message?

@[simp] theorem filesRead_append (results more : List FileResult) :
    filesRead (results ++ more) = filesRead results ++ filesRead more :=
  List.filterMap_append

@[simp] theorem messages_append (results more : List FileResult) :
    messages (results ++ more) = messages results ++ messages more :=
  List.filterMap_append

/-- A selection drops comments, not messages. -/
@[simp] theorem messages_select (selection : Selection) (results : List FileResult) :
    messages (select selection results) = messages results := by
  rw [messages, select, List.filterMap_map]
  apply List.filterMap_congr
  intro result _
  cases result <;> rfl

@[simp] theorem select_append (selection : Selection) (results more : List FileResult) :
    select selection (results ++ more) = select selection results ++ select selection more :=
  List.map_append

theorem any_isFailure_eq (results : List FileResult) :
    results.any Request.isFailure = !(messages results).isEmpty := by
  induction results with
  | nil => rfl
  | cons result results ih =>
      cases result with
      | ok file => rw [List.any_cons, ih]; rfl
      | error failure => rfl

theorem exitCode_eq (results : List FileResult) :
    (if results.any Request.isFailure then 1 else 0) =
      if (messages results).isEmpty then 0 else 1 := by
  rw [any_isFailure_eq]
  cases (messages results).isEmpty <;> rfl

/-- The tally counts the files that were read, and the comments in them. -/
theorem tally_eq (results : List FileResult) :
    tally results =
      ⟨((filesRead results).map (·.comments.length)).sum, (filesRead results).length⟩ := by
  -- The tally is kept from left to right, so the last result is the one added.
  induction results using List.reverseRecOn with
  | nil => rfl
  | append_singleton results result ih =>
      cases result with
      | ok file =>
          have hstep : tally (results ++ [.ok file]) = (tally results).add file := by
            rw [tally, List.foldl_append]
            rfl
          have hread : filesRead [.ok file] = [file] := rfl
          simp [hstep, ih, hread, Tally.add]
      | error failure =>
          have hstep : tally (results ++ [.error failure]) = tally results := by
            rw [tally, List.foldl_append]
            rfl
          have hread : filesRead [.error failure] = [] := rfl
          simp [hstep, ih, hread]

theorem tally_append (results more : List FileResult) :
    tally (results ++ more) =
      ⟨(tally results).comments + (tally more).comments,
        (tally results).files + (tally more).files⟩ := by
  simp [tally_eq]

/-! ## What is written -/

/-- What is written for some messages. -/
def reported (messages : List String) : String :=
  String.join (messages.map complaint)

/-- The end of a text report. -/
def trailer (colours : Bool) (tally : Tally) : String :=
  render colours (summary tally)

/-- An array as it is written. -/
def printed (entries : List Json) : String :=
  (Json.array entries).pretty 0 ++ "\n"

@[simp] theorem reported_append (messages more : List String) :
    reported (messages ++ more) = reported messages ++ reported more := by
  rw [reported, List.map_append, String.join_append]
  rfl

@[simp] theorem render_append (colours : Bool) (spans more : List Span) :
    render colours (spans ++ more) = render colours spans ++ render colours more := by
  rw [render, List.map_append, String.join_append]
  rfl

theorem join_resultComplaint (results : List FileResult) :
    String.join (results.map resultComplaint) = reported (messages results) := by
  induction results with
  | nil => rfl
  | cons result results ih =>
      rw [List.map_cons, String.join_cons, ih]
      cases result with
      | ok file => exact String.empty_append
      | error failure => exact String.join_cons.symm

/-- The records of some results in a text report. -/
def records (settings : Settings) (results : List FileResult) : String :=
  render settings.colours ((select settings.selection results).flatMap resultRecords)

@[simp] theorem records_append (settings : Settings) (results more : List FileResult) :
    records settings (results ++ more) = records settings results ++ records settings more := by
  simp [records]

theorem print_text {settings : Settings} (h : settings.format = .text)
    (results : List FileResult) :
    print settings results =
      ⟨if settings.summary then
          records settings results ++
            trailer settings.colours (tally (select settings.selection results))
        else records settings results,
        reported (messages results)⟩ := by
  simp only [print, h, join_resultComplaint, messages_select, textSpans, render_append]
  cases settings.summary with
  | true => rfl
  | false => simp [records, render]

theorem print_json {settings : Settings} (h : settings.format = .json)
    (results : List FileResult) :
    print settings results =
      ⟨printed ((select settings.selection results).map entry), ""⟩ := by
  simp only [print, h]
  rfl

end Report

namespace Request

/-- The request passes the checks that are made before anything is read: it does not
ask for the list of languages, its size limit and its pattern are valid, and there is
a language for standard input. -/
structure Passes (request : Request) (engine : PatternEngine) (limit : Nat)
    (selection : Selection) : Prop where
  notListing : request.listLanguages = false
  limited : request.sizeLimit = .ok limit
  inputKnown : request.language = none → ∀ path ∈ request.paths, isInput path = false
  selected : Selection.make engine request.kind request.matching = .ok selection

theorem results_cons (request : Request) (tree : FileTree) (session : Session) (limit : Nat)
    (input : ByteArray) (path : Path) (paths : List Path) :
    request.results tree session limit input (path :: paths) =
      (request.pathResults tree session limit input path).1 ++
        request.results tree session limit (request.pathResults tree session limit input path).2
          paths := rfl

/-- The results depend on a request through its language and the options of its
walks. -/
theorem results_congr (request other : Request) (hlanguage : other.language = request.language)
    (hoptions : other.walkOptions = request.walkOptions) (tree : FileTree) (session : Session)
    (limit : Nat) (input : ByteArray) (paths : List Path) :
    other.results tree session limit input paths =
      request.results tree session limit input paths := by
  induction paths generalizing input with
  | nil => rfl
  | cons path paths ih =>
      have hpath : other.pathResults tree session limit input path =
          request.pathResults tree session limit input path := by
        rw [pathResults, pathResults, hlanguage, hoptions]
      rw [results_cons, results_cons, hpath, ih]

/-- The outcome of a request with the given results. -/
def outcome (request : Request) (environment : Environment) (selection : Selection)
    (results : List FileResult) : Outcome :=
  let printed := Report.print (request.settings environment selection) results
  ⟨if (Report.messages results).isEmpty then 0 else 1, printed.output, printed.errors⟩

section Outcomes

variable (request : Request) (environment : Environment) (selection : Selection)
  (results : List FileResult)

theorem exitCode_outcome_eq_one_iff :
    (request.outcome environment selection results).exitCode = 1 ↔
      Report.messages results ≠ [] := by
  cases hmessages : Report.messages results <;> simp [outcome, hmessages]

theorem exitCode_outcome_eq_zero_iff :
    (request.outcome environment selection results).exitCode = 0 ↔
      Report.messages results = [] := by
  cases hmessages : Report.messages results <;> simp [outcome, hmessages]

variable {request}

theorem output_outcome_bare (h : request.json = false) (hbare : request.noSummary = true) :
    (request.outcome environment selection results).output =
      Report.records (request.settings environment selection) results := by
  rw [outcome, Report.print_text (by simp [settings, h])]
  simp [settings, hbare]

theorem output_outcome_summed (h : request.json = false) (hsummed : request.noSummary = false) :
    (request.outcome environment selection results).output =
      Report.records (request.settings environment selection) results ++
        Report.trailer (request.settings environment selection).colours
          (Report.tally (Report.select selection results)) := by
  rw [outcome, Report.print_text (by simp [settings, h])]
  simp [settings, hsummed]

theorem errors_outcome_text (h : request.json = false) :
    (request.outcome environment selection results).errors =
      Report.reported (Report.messages results) := by
  rw [outcome, Report.print_text (by simp [settings, h])]

theorem output_outcome_json (h : request.json = true) :
    (request.outcome environment selection results).output =
      Report.printed ((Report.select selection results).map Report.entry) := by
  rw [outcome, Report.print_json (by simp [settings, h])]
  rfl

theorem errors_outcome_json (h : request.json = true) :
    (request.outcome environment selection results).errors = Report.reported [] := by
  rw [outcome, Report.print_json (by simp [settings, h])]
  rfl

end Outcomes

/-- A request that passes its checks gives the outcome of the results for its paths. -/
theorem Passes.run_eq {request : Request} {engine : PatternEngine} {limit : Nat}
    {selection : Selection} (h : request.Passes engine limit selection) (world : World) :
    request.run engine world = request.outcome world.environment selection
      (request.results world.tree world.session limit world.standardInput request.paths) := by
  have hinput : (request.language.isNone && request.paths.any isInput) = false := by
    cases hlanguage : request.language with
    | some language => rfl
    | none => simpa using h.inputKnown hlanguage
  simp only [run, h.notListing, h.limited, hinput, h.selected, perform, outcome,
    Report.exitCode_eq, Bool.false_eq_true, if_false]

end Request

end Marginalia
