import Formulary.Proofs.Render.Session
import Formulary.Proofs.Solution.Preview
import Formulary.Solution.Step

/-!
# Steps and their answer

Once the result of a response is read, there is a report on its steps and its answer whatever the
steps hold. A step becomes what its own value gives (`Becomes`): it is read, it must have a substep
and then a header, its tree is converted and then its header is filled, and the first of these that
fails is its failure. Whether one renderer serves a step or a new one each tree makes no difference
(`showingInSession_eq`). The answer stands behind all steps, under their number, however many of
them failed (`ofResponse_steps`).
-/

namespace Formulary.Step

open Json (Value)

/-! ## One step -/

/-- What becomes of the value of a step. -/
inductive Becomes (settings : Settings) (value : Value) : Except Failure Step → Prop
  /-- It is no step. -/
  | unreadable {fault : Json.Fault} (hRead : value.toRecord sourceRecord = .error fault) :
    Becomes settings value (.error (.decode (.json fault)))
  /-- It has no substep, and perhaps no header either. -/
  | noSubstep {source : Source} (hRead : value.toRecord sourceRecord = .ok source)
    (hNone : source.substeps = []) :
    Becomes settings value (.error (.decode (.missingField "substeps".toList)))
  /-- It has a substep and no header. -/
  | noHeader {source : Source} {substep : Node} {substeps : List Node}
    (hRead : value.toRecord sourceRecord = .ok source)
    (hSubstep : source.substeps = substep :: substeps) (hNone : source.headers = []) :
    Becomes settings value (.error (.decode (.missingField "headers".toList)))
  /-- Its tree cannot be converted. -/
  | noTree {source : Source} {substep : Node} {substeps : List Node} {header : Template}
    {headers : List Template} {error : RenderError}
    (hRead : value.toRecord sourceRecord = .ok source)
    (hSubstep : source.substeps = substep :: substeps)
    (hHeader : source.headers = header :: headers)
    (hTree : (convert settings substep).outcome = .error error) :
    Becomes settings value (.error (.render error))
  /-- Its tree can be converted and its header cannot be filled. -/
  | noHeading {source : Source} {substep : Node} {substeps : List Node} {header : Template}
    {headers : List Template} {tree : Text} {error : RenderError}
    (hRead : value.toRecord sourceRecord = .ok source)
    (hSubstep : source.substeps = substep :: substeps)
    (hHeader : source.headers = header :: headers)
    (hTree : (convert settings substep).outcome = .ok tree)
    (hHeading : (header.render settings).outcome = .error error) :
    Becomes settings value (.error (.render error))
  /-- It is shown: the tree of its first substep under its first header. -/
  | shown {source : Source} {substep : Node} {substeps : List Node} {header : Template}
    {headers : List Template} {tree heading : Text}
    (hRead : value.toRecord sourceRecord = .ok source)
    (hSubstep : source.substeps = substep :: substeps)
    (hHeader : source.headers = header :: headers)
    (hTree : (convert settings substep).outcome = .ok tree)
    (hHeading : (header.render settings).outcome = .ok heading) :
    Becomes settings value (.ok ⟨tree, heading⟩)

/-- Render the tree of a step and fill its header. -/
def showing (settings : Settings) (substep : Node) (header : Template) : Run RenderError Step := do
  let step ← convert settings substep
  let header ← header.render settings
  return { step, header }

/-- Render the tree of a step and fill its header, all with one renderer. -/
def showingInSession (settings : Settings) (substep : Node) (header : Template) :
    Counted Step := do
  let step ← Session.call settings .convert substep
  let header ← Placeholder.substitute settings.substitution (Session.call settings .fragment)
    header.args header.text
  return { step, header }

/-- One renderer shows a step as a new one for every tree does, and is left as it was. -/
theorem showingInSession_eq (settings : Settings) (substep : Node) (header : Template) :
    showingInSession settings substep header 0 = (showing settings substep header, 0) := by
  refine Counted.gives_bind (Session.call_eq settings .convert substep) fun step => ?_
  have hHeader := Counted.gives_substitute (Session.call_eq settings .fragment)
    settings.substitution header.args header.text
  exact Counted.gives_bind hHeader fun _ => Counted.gives_pure _ 0

theorem ofValue_of_source {settings : Settings} {value : Value} {source : Source} {substep : Node}
    {substeps : List Node} {header : Template} {headers : List Template}
    (hRead : value.toRecord sourceRecord = .ok source)
    (hSubstep : source.substeps = substep :: substeps)
    (hHeader : source.headers = header :: headers) :
    ofValue settings value = (showing settings substep header).mapError .render := by
  rw [ofValue, hRead]
  simp only [Except.mapError, Run.ofExcept_bind_ok, hSubstep, hHeader, firstOf]
  rfl

theorem outcome_of_becomes {settings : Settings} {value : Value} {outcome : Except Failure Step}
    (h : Becomes settings value outcome) : (ofValue settings value).outcome = outcome := by
  cases h with
  | unreadable hRead =>
    rw [ofValue, hRead]
    rfl
  | noSubstep hRead hNone =>
    rw [ofValue, hRead]
    simp only [Except.mapError, Run.ofExcept_bind_ok, hNone, firstOf]
    rfl
  | noHeader hRead hSubstep hNone =>
    rw [ofValue, hRead]
    simp only [Except.mapError, Run.ofExcept_bind_ok, hSubstep, hNone, firstOf]
    rfl
  | noTree hRead hSubstep hHeader hTree =>
    rw [ofValue_of_source hRead hSubstep hHeader, showing, Run.bind_of_error hTree]
    rfl
  | noHeading hRead hSubstep hHeader hTree hHeading =>
    rw [ofValue_of_source hRead hSubstep hHeader, showing, Run.bind_of_ok hTree,
      Run.bind_of_error hHeading]
    rfl
  | shown hRead hSubstep hHeader hTree hHeading =>
    rw [ofValue_of_source hRead hSubstep hHeader, showing, Run.bind_of_ok hTree,
      Run.bind_of_ok hHeading]
    rfl

theorem exists_becomes (settings : Settings) (value : Value) :
    ∃ outcome, Becomes settings value outcome := by
  cases hRead : value.toRecord sourceRecord with
  | error fault => exact ⟨_, .unreadable hRead⟩
  | ok source =>
    cases hSubsteps : source.substeps with
    | nil => exact ⟨_, .noSubstep hRead hSubsteps⟩
    | cons substep substeps =>
      cases hHeaders : source.headers with
      | nil => exact ⟨_, .noHeader hRead hSubsteps hHeaders⟩
      | cons header headers =>
        cases hTree : (convert settings substep).outcome with
        | error error => exact ⟨_, .noTree hRead hSubsteps hHeaders hTree⟩
        | ok tree =>
          cases hHeading : (header.render settings).outcome with
          | error error => exact ⟨_, .noHeading hRead hSubsteps hHeaders hTree hHeading⟩
          | ok heading => exact ⟨_, .shown hRead hSubsteps hHeaders hTree hHeading⟩

theorem outcome_ofValue_iff {settings : Settings} {value : Value}
    {outcome : Except Failure Step} :
    (ofValue settings value).outcome = outcome ↔ Becomes settings value outcome := by
  refine ⟨fun h => ?_, outcome_of_becomes⟩
  obtain ⟨other, hOther⟩ := exists_becomes settings value
  rw [← h, outcome_of_becomes hOther]
  exact hOther

/-! ## The answer -/

theorem outcome_ofAnswer_of_ok {settings : Settings} {solution : Node} {tree : Text}
    (h : (convert settings solution).outcome = .ok tree) :
    (ofAnswer settings solution).outcome = .ok ⟨tree, settings.answerHeader⟩ := by
  rw [ofAnswer, Run.bind_of_ok h]
  rfl

theorem outcome_ofAnswer_of_error {settings : Settings} {solution : Node} {error : RenderError}
    (h : (convert settings solution).outcome = .error error) :
    (ofAnswer settings solution).outcome = .error (.render error) := by
  rw [ofAnswer, Run.bind_of_error h]
  rfl

/-! ## The report -/

/-- What becomes of the steps and of the answer, each by itself. -/
def outcomes (settings : Settings) (result : Result) : List (Except Failure Step) :=
  (result.steps.map fun value => (ofValue settings value).outcome) ++
    [(ofAnswer settings result.solution).outcome]

theorem exists_accounts_ofResponse {text : Text} {result : Result} (settings : Settings)
    (hResult : readResult text = .ok result) :
    ∃ report, (ofResponse settings text).outcome = .ok report ∧
      report.Accounts (outcomes settings result) := by
  obtain ⟨report, hReport, hAccounts⟩ := @Report.exists_accounts_record Step Failure
    (result.steps.map (ofValue settings)) (ofAnswer settings result.solution)
  rw [List.map_map] at hAccounts
  refine ⟨report, ?_, hAccounts⟩
  rw [ofResponse, hResult]
  exact hReport

theorem getElem?_outcomes {settings : Settings} {result : Result} {index : Nat} {value : Value}
    (h : result.steps[index]? = some value) :
    (outcomes settings result)[index]? = some (ofValue settings value).outcome := by
  have hIndex : index < result.steps.length := (List.getElem?_eq_some_iff.mp h).1
  rw [outcomes, List.getElem?_append_left (by rwa [List.length_map]), List.getElem?_map, h]
  rfl

theorem getElem?_outcomes_answer (settings : Settings) (result : Result) :
    (outcomes settings result)[result.steps.length]? =
      some (ofAnswer settings result.solution).outcome := by
  have hLength : result.steps.length =
      (result.steps.map fun value => (ofValue settings value).outcome).length :=
    List.length_map _ |>.symm
  rw [outcomes, hLength, List.getElem?_concat_length]

/-- A response whose result can be read has a report that accounts for every step and for the
answer. At the index of a step stands what becomes of its value, whatever becomes of the others and
whether or not its trees share a renderer. The answer has the number of steps as its index: there
its failure is reported, or else it is the last item, under the header of the settings. -/
theorem ofResponse_steps {settings : Settings} {text : Text} {result : Result}
    (hResult : readResult text = .ok result) :
    ∃ report, (ofResponse settings text).outcome = .ok report ∧
      report.Accounts (outcomes settings result) ∧
      report.items.length + report.failures.length = result.steps.length + 1 ∧
      (∀ index value, result.steps[index]? = some value → ∀ outcome,
        report.entry? index = some outcome ↔ Becomes settings value outcome) ∧
      (∀ substep header,
        showingInSession settings substep header 0 = (showing settings substep header, 0)) ∧
      (∀ failure, (result.steps.length, failure) ∈ report.failures ↔
        ∃ error, failure = .render error ∧
          (convert settings result.solution).outcome = .error error) ∧
      ∀ tree, (convert settings result.solution).outcome = .ok tree →
        report.items.getLast? = some ⟨tree, settings.answerHeader⟩ := by
  obtain ⟨report, hReport, hAccounts⟩ := exists_accounts_ofResponse settings hResult
  refine ⟨report, hReport, hAccounts, ?_, ?_, showingInSession_eq settings, ?_, ?_⟩
  · rw [hAccounts.total, outcomes, List.length_append, List.length_map]
    rfl
  · intro index value hValue outcome
    rw [hAccounts.entries, getElem?_outcomes hValue, Option.some_inj, outcome_ofValue_iff]
  · intro failure
    rw [hAccounts.failures, getElem?_outcomes_answer, Option.some_inj]
    cases hAnswer : (convert settings result.solution).outcome with
    | ok tree =>
      rw [outcome_ofAnswer_of_ok hAnswer]
      exact ⟨nofun, nofun⟩
    | error error =>
      rw [outcome_ofAnswer_of_error hAnswer]
      constructor
      · rintro ⟨⟩
        exact ⟨error, rfl, rfl⟩
      · rintro ⟨other, rfl, ⟨⟩⟩
        rfl
  · intro tree hTree
    rw [hAccounts.items, outcomes, List.filterMap_append, outcome_ofAnswer_of_ok hTree]
    exact List.getLast?_concat

/-! ## A response with failures -/

/-- The JSON value of a step with these substeps and headers. -/
def stepValue (substeps headers : List Value) : Value :=
  .object [("headers".toList, .array headers),
    ("substeps".toList, .array (substeps.map fun left => .object [("left".toList, left)]))]

/-- Three steps, of which the second holds nothing and the tree of the third lacks a child. -/
def mixedResult : Result where
  steps := [
    stepValue [Preview.leafValue "var" "x_1"]
      [Preview.templateValue "Find ARG1" [Preview.leafValue "var" "x_1"]],
    stepValue [] [],
    stepValue [.object [("children".toList, .array [Preview.leafValue "const" "1"]),
      ("type".toList, .string "frac".toList)]] [Preview.templateValue "Reduce" []]]
  solution := .leaf "const".toList (.text "2.5".toList)

/-- A response with this result. -/
def mixedResponse : Text :=
  (Value.object [("result".toList, .object [("solution".toList, Preview.leafValue "const" "2.5"),
    ("steps".toList, .array mixedResult.steps)])]).print

theorem ofResponse_steps_mixed :
    readResult mixedResponse = .ok mixedResult ∧
      (∃ report, (ofResponse {} mixedResponse).outcome = .ok report ∧
        report.Accounts (outcomes {} mixedResult)) ∧
      (ofResponse {} mixedResponse).outcome = .ok
        { items := [⟨"\\(x_\x7b1\x7d\\)".toList, "Find \\(x_\x7b1\x7d\\)".toList⟩,
            ⟨"\\(2\x7b,\x7d5\\)".toList, "Ответ".toList⟩]
          failures := [(1, .decode (.missingField "substeps".toList)),
            (2, .render (.malformedNode .fraction 1))] } := by
  have hResult : readResult mixedResponse = .ok mixedResult := by
    set_option maxRecDepth 100000 in exact rfl
  obtain ⟨report, hReport, hAccounts, -⟩ := @ofResponse_steps {} _ _ hResult
  exact ⟨hResult, ⟨report, hReport, hAccounts⟩, by decide +kernel⟩

end Formulary.Step
