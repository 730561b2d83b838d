import Mathlib
import Marginalia.Proofs.Messages
import Marginalia.Proofs.PathLists

/-! # Two formats of one report

A text report and a JSON report of the same request tell the same: what is reported
as a message here is an error in an entry there, and the tally counts what the
entries hold. Selecting comments changes nothing in either but the comments.
-/

namespace Marginalia

/-! ## Entries -/

namespace Json

/-- The value of a field of an object. -/
def field? (key : String) : Json → Option Json
  | .object fields => fields.lookup key
  | _ => none

/-- The error of an entry, if it has one. -/
def errorText? (entry : Json) : Option String :=
  match entry.field? "error" with
  | some (.string text) => some text
  | _ => none

/-- The comments of an entry, if it has an array of them. -/
def comments? (entry : Json) : Option (List Json) :=
  match entry.field? "comments" with
  | some (.array items) => some items
  | _ => none

/-- The same entry, but for comments that are left out. -/
def Thins (full entry : Json) : Prop :=
  entry = full ∨ ∃ fields comments kept,
    full = .object (fields ++ [("comments", .array comments)]) ∧
      entry = .object (fields ++ [("comments", .array kept)]) ∧ kept.Sublist comments

end Json

namespace Report

theorem field?_error_entry (result : FileResult) :
    (entry result).field? "error" = (message? result).map Json.string := by
  cases result with
  | ok file => simp [entry, Json.field?, List.lookup, message?]
  | error failure => simp [entry, Json.field?, List.lookup, message?]

theorem errorText?_entry (result : FileResult) : (entry result).errorText? = message? result := by
  rw [Json.errorText?, field?_error_entry]
  cases message? result <;> rfl

theorem comments?_entry (result : FileResult) :
    (entry result).comments? =
      (Except.toOption result).map fun file => file.comments.map commentJson := by
  cases result with
  | ok file => simp [entry, Json.comments?, Json.field?, List.lookup, Except.toOption]
  | error failure => simp [entry, Json.comments?, Json.field?, List.lookup, Except.toOption]

/-- The errors of the entries are the messages, in the same order. -/
theorem filterMap_errorText?_entry (results : List FileResult) :
    (results.map entry).filterMap Json.errorText? = messages results := by
  rw [List.filterMap_map, messages]
  exact List.filterMap_congr fun result _ => errorText?_entry result

theorem filterMap_comments?_entry (results : List FileResult) :
    (results.map entry).filterMap Json.comments? =
      (filesRead results).map fun file => file.comments.map commentJson := by
  rw [List.filterMap_map, filesRead, List.map_filterMap]
  exact List.filterMap_congr fun result _ => comments?_entry result

/-- The tally counts the arrays of comments and what is in them. -/
theorem tally_eq_of_entries (results : List FileResult) :
    tally results =
      ⟨(((results.map entry).filterMap Json.comments?).map List.length).sum,
        ((results.map entry).filterMap Json.comments?).length⟩ := by
  rw [tally_eq, filterMap_comments?_entry, List.map_map, List.length_map]
  simp [Function.comp_def]

theorem messages_eq_nil_iff (results : List FileResult) :
    messages results = [] ↔ ∀ item ∈ results.map entry, item.field? "error" = none := by
  simp [messages, List.filterMap_eq_nil_iff, field?_error_entry]

/-- Selecting comments leaves every entry as it is, but for its comments. -/
theorem thins_entry (selection : Selection) (result : FileResult) :
    Json.Thins (entry result) (entry (result.map selection.apply)) := by
  cases result with
  | error failure => exact .inl rfl
  | ok file =>
      refine .inr ⟨[("path", .string file.path.display), ("language", .string file.language.id)],
        file.comments.map commentJson, (selection.apply file).comments.map commentJson, rfl, rfl,
        ?_⟩
      exact List.filter_sublist.map _

theorem select_everything (results : List FileResult) : select .everything results = results := by
  have happly (file : CommentedFile) : Selection.everything.apply file = file := by
    have hkeeps : file.comments.filter Selection.everything.admits = file.comments :=
      List.filter_eq_self.mpr fun comment _ => Selection.admits_of_isTrivial rfl comment
    rw [Selection.apply, hkeeps]
  rw [select]
  apply List.map_id''
  intro result
  cases result with
  | ok file => exact congrArg Except.ok (happly file)
  | error failure => rfl

/-- A text report and a JSON report with some entries tell the same. -/
structure Agree (colours : Bool) (entries : List Json) (text json : Outcome) : Prop where
  array : json.output = printed entries
  exitCode : text.exitCode = json.exitCode
  /-- The messages of the text report are the errors of the entries, in order. -/
  errors : text.errors = reported (entries.filterMap Json.errorText?)
  /-- A JSON report comes without messages. -/
  quiet : json.errors = ""
  /-- The tally counts the arrays of comments and what is in them. -/
  tally : ∃ records, text.output = records ++ trailer colours
    ⟨((entries.filterMap Json.comments?).map List.length).sum,
      (entries.filterMap Json.comments?).length⟩
  success : json.exitCode = 0 ↔ ∀ item ∈ entries, item.field? "error" = none

end Report

namespace Request

/-- The request for a text report that ends with a tally. -/
def asText (request : Request) : Request :=
  { request with json := false, noSummary := false }

/-- The request for a JSON report. -/
def asJson (request : Request) : Request :=
  { request with json := true, noSummary := false }

/-- The request for all comments. -/
def unselected (request : Request) : Request :=
  { request with multilineOnly := false, singleLineOnly := false, matching := none }

/-- Whether a text report shows colours. -/
def showsColours (request : Request) (environment : Environment) : Bool :=
  environment.wantsColour request.colour && environment.showsColour

theorem Passes.asText {request : Request} {engine : PatternEngine} {limit : Nat}
    {selection : Selection} (h : request.Passes engine limit selection) :
    request.asText.Passes engine limit selection :=
  ⟨h.notListing, h.limited, h.inputKnown, h.selected⟩

theorem Passes.asJson {request : Request} {engine : PatternEngine} {limit : Nat}
    {selection : Selection} (h : request.Passes engine limit selection) :
    request.asJson.Passes engine limit selection :=
  ⟨h.notListing, h.limited, h.inputKnown, h.selected⟩

theorem Passes.unselected {request : Request} {engine : PatternEngine} {limit : Nat}
    {selection : Selection} (h : request.Passes engine limit selection) :
    request.unselected.Passes engine limit .everything :=
  ⟨h.notListing, h.limited, h.inputKnown, rfl⟩

/-- Requests that walk and read alike report on the same results. -/
theorem Passes.run_eq_outcome {other : Request} {engine : PatternEngine} {limit : Nat}
    {selection : Selection} (h : other.Passes engine limit selection) (request : Request)
    (hlanguage : other.language = request.language)
    (hoptions : other.walkOptions = request.walkOptions) (hpaths : other.paths = request.paths)
    (world : World) :
    other.run engine world = other.outcome world.environment selection
      (request.results world.tree world.session limit world.standardInput request.paths) := by
  rw [h.run_eq, results_congr request other hlanguage hoptions, hpaths]

/-- The two reports on some results agree on the entries for them. -/
theorem agree_outcome (request : Request) (environment : Environment) (selection : Selection)
    (results : List FileResult) :
    Report.Agree (request.showsColours environment)
      ((Report.select selection results).map Report.entry)
      (request.asText.outcome environment selection results)
      (request.asJson.outcome environment selection results) where
  array := output_outcome_json environment selection results rfl
  exitCode := rfl
  errors := by
    rw [errors_outcome_text environment selection results rfl,
      Report.filterMap_errorText?_entry, Report.messages_select]
  quiet := errors_outcome_json environment selection results rfl
  tally := by
    rw [output_outcome_summed environment selection results rfl rfl, ← Report.tally_eq_of_entries]
    exact ⟨_, rfl⟩
  success := by
    rw [exitCode_outcome_eq_zero_iff, ← Report.messages_eq_nil_iff, Report.messages_select]

/-- Text and JSON report the same run, whatever patterns are. For a request that passes
its checks, the report with a tally and the JSON report agree on the entries, with comments selected
and with all comments. Selecting changes neither the messages nor the exit code, and
in the entries only the comments. If there is no newline in the names of the tree and
the paths of the request, the messages can be read back from the text report. -/
theorem run_formats_agree {request : Request} {engine : PatternEngine} {limit : Nat}
    {selection : Selection} (h : request.Passes engine limit selection) (world : World) :
    ∃ entries every,
      Report.Agree (request.showsColours world.environment) entries
        (request.asText.run engine world) (request.asJson.run engine world) ∧
      Report.Agree (request.showsColours world.environment) every
        (request.unselected.asText.run engine world)
        (request.unselected.asJson.run engine world) ∧
      (request.asText.run engine world).errors =
        (request.unselected.asText.run engine world).errors ∧
      (request.asText.run engine world).exitCode =
        (request.unselected.asText.run engine world).exitCode ∧
      List.Forall₂ Json.Thins every entries ∧
      (world.tree.OneLineNames → (∀ path ∈ request.paths, path.OneLine) →
        ∀ messages, (∀ message ∈ messages, Text.OneLine message) →
          (request.asText.run engine world).errors = Report.reported messages →
            messages = entries.filterMap Json.errorText?) := by
  let results :=
    request.results world.tree world.session limit world.standardInput request.paths
  rw [h.asText.run_eq_outcome request rfl rfl rfl, h.asJson.run_eq_outcome request rfl rfl rfl,
    h.unselected.asText.run_eq_outcome request rfl rfl rfl,
    h.unselected.asJson.run_eq_outcome request rfl rfl rfl]
  have hagree := request.agree_outcome world.environment selection results
  have hplain := request.unselected.agree_outcome world.environment .everything results
  rw [Report.select_everything] at hplain
  refine ⟨_, _, hagree, hplain, ?_, rfl, ?_, ?_⟩
  · rw [errors_outcome_text _ _ _ rfl, errors_outcome_text _ _ _ rfl]
  · rw [Report.select, List.map_map, List.forall₂_map_left_iff, List.forall₂_map_right_iff,
      List.forall₂_same]
    exact fun result _ => Report.thins_entry selection result
  · intro htree hpaths messages hmessages herrors
    rw [Report.filterMap_errorText?_entry, Report.messages_select]
    apply Report.reported_inj hmessages
      (request.oneLine_results htree hpaths world.session limit world.standardInput)
    rw [← herrors, errors_outcome_text _ _ _ rfl]

/-- Some comments of a directory, of standard input and of a path that is not there. -/
def sampleSelected : Request :=
  { sampleRequest with
    paths := [.ofString "src", .ofString "-", .ofString "no"], singleLineOnly := true }

/-- The selection of the request. -/
def sampleLineSelection : Selection :=
  { sampleSelection with kind := .single }

/-- The results of the request. The comment on standard input is not selected. -/
def sampleSelectedResults : List FileResult :=
  [.ok ⟨.ofString "src/a/.h.c", .c, []⟩, .ok ⟨.ofString "src/b.c", .c, [.single " b" 1]⟩,
    .ok ⟨.ofString "-", .c, []⟩, .error (.unreadable (.ofString "no") .noSuchRoot)]

theorem passes_sampleSelected :
    sampleSelected.Passes plainEngine defaultSizeLimit sampleLineSelection :=
  ⟨rfl, rfl, fun hlanguage => absurd hlanguage (Option.some_ne_none _), rfl⟩

theorem run_formats_agree_sampleProject :
    sampleSelected.Passes plainEngine defaultSizeLimit sampleLineSelection ∧
      sampleWorld.tree.OneLineNames ∧ (∀ path ∈ sampleSelected.paths, path.OneLine) ∧
      (sampleSelected.asJson.run plainEngine sampleWorld).output =
        Report.printed (sampleSelectedResults.map Report.entry) ∧
      (sampleSelected.unselected.asJson.run plainEngine sampleWorld).output =
        Report.printed ((sampleResults ++ sampleInputResults).map Report.entry) ∧
      ∃ entries every,
        Report.Agree false entries (sampleSelected.asText.run plainEngine sampleWorld)
          (sampleSelected.asJson.run plainEngine sampleWorld) ∧
        Report.Agree false every (sampleSelected.unselected.asText.run plainEngine sampleWorld)
          (sampleSelected.unselected.asJson.run plainEngine sampleWorld) ∧
        List.Forall₂ Json.Thins every entries ∧
        entries.filterMap Json.errorText? = ["cannot read 'no': No such file or directory"] := by
  have htree : sampleWorld.tree.OneLineNames := by
    have hfiles : sampleWorld.tree.fileLocations =
        [[".gitignore"], ["src", ".git", "x.c"], ["src", "a", ".h.c"], ["src", "a", "z.go"],
          ["src", "b.c"]].map (·.map fun name => (Path.ofString name).bytes) := by
      cbv
    rw [FileTree.OneLineNames, hfiles]
    decide +kernel
  have hpaths : ∀ path ∈ sampleSelected.paths, path.OneLine := by
    decide +kernel
  have hresults : sampleSelected.results sampleWorld.tree sampleWorld.session defaultSizeLimit
      sampleWorld.standardInput sampleSelected.paths = sampleResults ++ sampleInputResults := by
    cbv
  have hselect : Report.select sampleLineSelection (sampleResults ++ sampleInputResults) =
      sampleSelectedResults := by
    cbv
  have hjson : (sampleSelected.asJson.run plainEngine sampleWorld).output =
      Report.printed (sampleSelectedResults.map Report.entry) := by
    rw [passes_sampleSelected.asJson.run_eq_outcome sampleSelected rfl rfl rfl, hresults,
      output_outcome_json _ _ _ rfl, hselect]
  have hevery : (sampleSelected.unselected.asJson.run plainEngine sampleWorld).output =
      Report.printed ((sampleResults ++ sampleInputResults).map Report.entry) := by
    rw [passes_sampleSelected.unselected.asJson.run_eq_outcome sampleSelected rfl rfl rfl, hresults,
      output_outcome_json _ _ _ rfl, Report.select_everything]
  have hmessage : (Failure.unreadable (.ofString "no") .noSuchRoot).message =
      "cannot read 'no': No such file or directory" := by
    decide +kernel
  have herrors : (sampleSelected.asText.run plainEngine sampleWorld).errors =
      Report.reported ["cannot read 'no': No such file or directory"] := by
    rw [passes_sampleSelected.asText.run_eq_outcome sampleSelected rfl rfl rfl, hresults,
      errors_outcome_text _ _ _ rfl, ← hmessage]
    rfl
  obtain ⟨entries, every, hagree, hplain, -, -, hthins, hmessages⟩ :=
    run_formats_agree passes_sampleSelected sampleWorld
  refine ⟨passes_sampleSelected, htree, hpaths, hjson, hevery, entries, every, hagree, hplain,
    hthins, ?_⟩
  exact (hmessages htree hpaths _ (by decide +kernel) herrors).symm

end Request

end Marginalia
