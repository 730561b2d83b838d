import Mathlib
import Marginalia.Proofs.Reports
import Marginalia.Proofs.WalkOrder

/-! # Requests path by path

A request deals with its paths one after the other. No path has a bearing on
another, standard input apart, which can be read once: the outcome for two lists of
paths is put together from the outcomes for each.
-/

namespace Marginalia

namespace Request

/-! ## Results -/

/-- The request for other paths. -/
def onPaths (request : Request) (paths : List Path) : Request :=
  { request with paths := paths }

variable (request : Request) (tree : FileTree) (session : Session) (limit : Nat)

/-- A path that is not standard input does not touch it. -/
theorem pathResults_of_not_input {path : Path} (h : isInput path = false)
    (input other : ByteArray) :
    request.pathResults tree session limit input path =
      ((request.pathResults tree session limit other path).1, input) := by
  unfold pathResults
  cases request.language <;> rw [h] <;> cases tree.run session limit request.walkOptions [path] <;> rfl

/-- Paths that are not standard input have the same results whatever is in it. -/
theorem results_eq_of_not_input {paths : List Path} (h : ∀ path ∈ paths, isInput path = false)
    (input other : ByteArray) :
    request.results tree session limit input paths = request.results tree session limit other paths := by
  induction paths with
  | nil => rfl
  | cons path paths ih =>
      obtain ⟨hpath, hpaths⟩ := List.forall_mem_cons.mp h
      rw [results_cons, results_cons, request.pathResults_of_not_input tree session limit hpath input other,
        request.pathResults_of_not_input tree session limit hpath other other, ih hpaths]

/-- If at most one of two lists of paths has standard input in it, the results for
the two are those for the one and then those for the other. -/
theorem results_append {first second : List Path}
    (h : (∀ path ∈ first, isInput path = false) ∨ ∀ path ∈ second, isInput path = false)
    (input : ByteArray) :
    request.results tree session limit input (first ++ second) =
      request.results tree session limit input first ++ request.results tree session limit input second := by
  induction first generalizing input with
  | nil => rfl
  | cons path first ih =>
      have hrest := ih (h.imp_left fun hfirst other hmem =>
        hfirst other (List.mem_cons_of_mem _ hmem)) (request.pathResults tree session limit input path).2
      have hsecond : request.results tree session limit (request.pathResults tree session limit input path).2
          second = request.results tree session limit input second := by
        rcases h with hfirst | hsecond
        · rw [request.pathResults_of_not_input tree session limit (hfirst path List.mem_cons_self) input
            input]
        · exact request.results_eq_of_not_input tree session limit hsecond _ _
      rw [List.cons_append, results_cons, results_cons, hrest, hsecond, List.append_assoc]

end Request

/-! ## Outcomes -/

/-- The outcome for two lists of paths is put together from the outcomes for each. -/
structure Outcome.Joins (request : Request) (colours : Bool) (first second both : Outcome) :
    Prop where
  /-- One failure among the paths is enough. -/
  exitCode : both.exitCode = 1 ↔ first.exitCode = 1 ∨ second.exitCode = 1
  errors : ∃ messages more, first.errors = Report.reported messages ∧
    second.errors = Report.reported more ∧ both.errors = Report.reported (messages ++ more)
  /-- Without a tally, a text report follows the other. -/
  records : request.json = false → request.noSummary = true →
    both.output = first.output ++ second.output
  /-- With a tally, the numbers are added. -/
  tally : request.json = false → request.noSummary = false →
    ∃ records more : String, ∃ tally other : Report.Tally,
      first.output = records ++ Report.trailer colours tally ∧
      second.output = more ++ Report.trailer colours other ∧
      both.output = records ++ more ++ Report.trailer colours
        ⟨tally.comments + other.comments, tally.files + other.files⟩
  array : request.json = true → ∃ entries more, first.output = Report.printed entries ∧
    second.output = Report.printed more ∧ both.output = Report.printed (entries ++ more)

namespace Request

theorem Passes.onPaths {request : Request} {engine : PatternEngine} {limit : Nat}
    {selection : Selection} {paths : List Path}
    (h : (request.onPaths paths).Passes engine limit selection) {some : List Path}
    (hsome : some ⊆ paths) : (request.onPaths some).Passes engine limit selection :=
  ⟨h.notListing, h.limited, fun hlanguage path hpath => h.inputKnown hlanguage path (hsome hpath),
    h.selected⟩

/-- What is written for results one after the other is put together from what is
written for each. -/
theorem joins_outcome (request : Request) (environment : Environment) (selection : Selection)
    (results more : List FileResult) :
    Outcome.Joins request (request.settings environment selection).colours
      (request.outcome environment selection results)
      (request.outcome environment selection more)
      (request.outcome environment selection (results ++ more)) := by
  refine ⟨?_, ?_, ?_, ?_, ?_⟩
  · simp only [exitCode_outcome_eq_one_iff, Report.messages_append, ne_eq,
      List.append_eq_nil_iff, not_and_or]
  · cases hformat : request.json with
    | false =>
        refine ⟨Report.messages results, Report.messages more, ?_, ?_, ?_⟩
        · rw [errors_outcome_text environment selection results hformat]
        · rw [errors_outcome_text environment selection more hformat]
        · rw [errors_outcome_text environment selection _ hformat, Report.messages_append]
    | true =>
        exact ⟨[], [], errors_outcome_json environment selection results hformat,
          errors_outcome_json environment selection more hformat,
          errors_outcome_json environment selection _ hformat⟩
  · intro htext hbare
    simp only [output_outcome_bare environment selection _ htext hbare, Report.records_append]
  · intro htext hsummed
    refine ⟨_, _, _, _, output_outcome_summed environment selection results htext hsummed,
      output_outcome_summed environment selection more htext hsummed, ?_⟩
    rw [output_outcome_summed environment selection _ htext hsummed, Report.records_append,
      Report.select_append, Report.tally_append]
  · intro hjson
    refine ⟨_, _, output_outcome_json environment selection results hjson,
      output_outcome_json environment selection more hjson, ?_⟩
    rw [output_outcome_json environment selection _ hjson, Report.select_append, List.map_append]

/-- Requests are compositional in their paths, whatever patterns are. Let a request pass
its checks with two lists of paths, not both with standard input in them. Then its outcome is put together
from those of the request with each list: text reports and messages follow one
another, tallies are added, arrays are joined, and the exit code is one if it is one
for either list. -/
theorem run_append_paths {request : Request} {engine : PatternEngine} {limit : Nat}
    {selection : Selection} {first second : List Path}
    (hpasses : (request.onPaths (first ++ second)).Passes engine limit selection)
    (hinput : ¬ ((∃ path ∈ first, isInput path = true) ∧ ∃ path ∈ second, isInput path = true))
    (world : World) :
    Outcome.Joins request (request.settings world.environment selection).colours
      ((request.onPaths first).run engine world) ((request.onPaths second).run engine world)
      ((request.onPaths (first ++ second)).run engine world) := by
  have honce : (∀ path ∈ first, isInput path = false) ∨ ∀ path ∈ second, isInput path = false := by
    refine (not_and_or.mp hinput).imp ?_ ?_
    · exact fun hnone path hpath => Bool.eq_false_iff.mpr fun his => hnone ⟨path, hpath, his⟩
    · exact fun hnone path hpath => Bool.eq_false_iff.mpr fun his => hnone ⟨path, hpath, his⟩
  have hsame (paths some : List Path) :
      (request.onPaths paths).results world.tree world.session limit world.standardInput some =
        request.results world.tree world.session limit world.standardInput some :=
    results_congr request (request.onPaths paths) rfl rfl _ _ _ _ _
  rw [hpasses.run_eq, (hpasses.onPaths (List.subset_append_left first second)).run_eq,
    (hpasses.onPaths (List.subset_append_right first second)).run_eq, hsame,
    hsame, hsame]
  have hresults := request.results_append world.tree world.session limit honce world.standardInput
  have hjoins := request.joins_outcome world.environment selection
    (request.results world.tree world.session limit world.standardInput first)
    (request.results world.tree world.session limit world.standardInput second)
  rw [← hresults] at hjoins
  exact hjoins

/-- Sources in a tree, and a comment on standard input. -/
def sampleWorld : World :=
  ⟨FileTree.sampleProject, .atTop, "// in".toUTF8, ⟨false, false, none⟩⟩

/-- Patterns that stand for themselves and occur at the start of a text. -/
def plainEngine : PatternEngine where
  compile text := .ok fun other => text.toList.isPrefixOf other.toList

/-- Everything is read as one language, and comments have to start in a certain way. -/
def sampleRequest : Request :=
  { initial with language := some .c, matching := some " b" }

/-- The selection of the request. -/
def sampleSelection : Selection :=
  ⟨.all, some fun other => " b".toList.isPrefixOf other.toList⟩

theorem passes_sampleRequest (paths : List Path) :
    (sampleRequest.onPaths paths).Passes plainEngine defaultSizeLimit sampleSelection :=
  ⟨rfl, rfl, fun hlanguage => absurd hlanguage (Option.some_ne_none _), rfl⟩

/-- The results for the sources of the tree. -/
def sampleResults : List FileResult :=
  [.ok ⟨.ofString "src/a/.h.c", .c, []⟩, .ok ⟨.ofString "src/b.c", .c, [.single " b" 1]⟩]

/-- The results for standard input and for a path that is not there. -/
def sampleInputResults : List FileResult :=
  [.ok ⟨.ofString "-", .c, [.single " in" 1]⟩, .error (.unreadable (.ofString "no") .noSuchRoot)]

theorem run_append_paths_sampleProject :
    (sampleRequest.onPaths ([.ofString "src"] ++ [.ofString "-", .ofString "no"])).Passes
      plainEngine defaultSizeLimit sampleSelection ∧
    ¬ ((∃ path ∈ [Path.ofString "src"], isInput path = true) ∧
      ∃ path ∈ [Path.ofString "-", .ofString "no"], isInput path = true) ∧
    Outcome.Joins sampleRequest false
      (sampleRequest.outcome sampleWorld.environment sampleSelection sampleResults)
      (sampleRequest.outcome sampleWorld.environment sampleSelection sampleInputResults)
      ((sampleRequest.onPaths ([.ofString "src"] ++ [.ofString "-", .ofString "no"])).run
        plainEngine sampleWorld) := by
  have hinput : ¬ ((∃ path ∈ [Path.ofString "src"], isInput path = true) ∧
      ∃ path ∈ [Path.ofString "-", .ofString "no"], isInput path = true) := by
    have hsrc : isInput (.ofString "src") = false := by cbv
    simp [hsrc]
  have hfirst : (sampleRequest.onPaths [.ofString "src"]).results sampleWorld.tree
      sampleWorld.session defaultSizeLimit sampleWorld.standardInput [.ofString "src"] =
        sampleResults := by
    cbv
  have hsecond : (sampleRequest.onPaths [.ofString "-", .ofString "no"]).results sampleWorld.tree
      sampleWorld.session defaultSizeLimit sampleWorld.standardInput
        [.ofString "-", .ofString "no"] = sampleInputResults := by
    cbv
  have hjoins := run_append_paths (passes_sampleRequest _) hinput sampleWorld
  rw [(passes_sampleRequest [.ofString "src"]).run_eq,
    (passes_sampleRequest [.ofString "-", .ofString "no"]).run_eq] at hjoins
  exact ⟨passes_sampleRequest _, hinput, hsecond ▸ hfirst ▸ hjoins⟩

end Request

end Marginalia
