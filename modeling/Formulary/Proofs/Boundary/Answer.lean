import Formulary.Boundary
import Formulary.Proofs.Render.Run
import Formulary.Proofs.Text.Utf8
import Formulary.Proofs.Toml.Settings

/-!
# Answers

A caller gets data when the request is the encoding of a text (`Requests`), the options mean some
settings (`Resolves`) and the function succeeds, and otherwise the first thing that is wrong
(`IsWrong`). `Function.answer_call` is this, for every function of the boundary:

* `delivered_eq`: what crosses the boundary is the result or the wording of the failure without its
  NULs, and never an empty text in its place;
* `data?_ofOutcome_eq_none_iff`: one of the two texts of an answer is there, and the other is not;
* `resolves_document_iff`: a settings document means the settings that hold what its entries say;
* `outcome_eq_ok_iff`, `outcome_eq_error_iff`: when a call succeeds, and what is wrong otherwise.
-/

namespace Formulary.Boundary

/-- The functions that a caller can call. -/
inductive Function where
  | convert
  | previews
  | steps
  deriving DecidableEq, Repr, Inhabited

/-- Call a function. -/
def Function.call : Function → Option Bytes → Option Options → Reply
  | .convert => Boundary.convert
  | .previews => Boundary.previews
  | .steps => Boundary.steps

/-- What a function results in. -/
def Function.result (function : Function) (settings : Settings) (text : Text) :
    Except Failure Text :=
  match function with
  | .convert => (convertJson settings text).outcome
  | .previews =>
    (Preview.ofResponse settings text).outcome.map fun report => report.print Preview.print
  | .steps => (Step.ofResponse settings text).outcome.map fun report => report.print Step.print

/-! ## Texts that cross the boundary -/

theorem delivered_eq (text : Text) : delivered text = withoutNul text := by
  simp [delivered, terminated?, withoutNul]

theorem nul_notMem_withoutNul (text : Text) : '\x00' ∉ withoutNul text := by
  simp [withoutNul]

/-! ## Answers to outcomes -/

/-- One of the two texts of an answer is there, and the other is not. -/
theorem data?_ofOutcome_eq_none_iff (outcome : Except Refusal Text) :
    (Answer.ofOutcome outcome).data? = none ↔ (Answer.ofOutcome outcome).error? ≠ none := by
  cases outcome with
  | error refusal => simp [Answer.ofOutcome, Answer.err]
  | ok result => simp [Answer.ofOutcome, Answer.ok]

theorem data?_ofOutcome_eq_some_iff {outcome : Except Refusal Text} {data : Text} :
    (Answer.ofOutcome outcome).data? = some data ↔
      ∃ result, outcome = .ok result ∧ data = withoutNul result := by
  cases outcome with
  | error refusal => simp [Answer.ofOutcome, Answer.err]
  | ok result => simp [Answer.ofOutcome, Answer.ok, delivered_eq, eq_comm]

theorem error?_ofOutcome_eq_some_iff {outcome : Except Refusal Text} {message : Text} :
    (Answer.ofOutcome outcome).error? = some message ↔
      ∃ refusal, outcome = .error refusal ∧ message = withoutNul refusal.message := by
  cases outcome with
  | error refusal => simp [Answer.ofOutcome, Answer.err, delivered_eq, eq_comm]
  | ok result => simp [Answer.ofOutcome, Answer.ok]

/-! ## Requests -/

/-- The request asks with a text: up to the first zero it is the encoding of the text. -/
def Requests (input : Option Bytes) (text : Text) : Prop :=
  ∃ bytes, input = some bytes ∧ bytes.content = Utf8.encode text

theorem requestText_eq_ok_iff {input : Option Bytes} {text : Text} :
    requestText input = .ok text ↔ Requests input text := by
  cases input with
  | none => simp [requestText, Requests]
  | some bytes =>
    simp only [requestText, Requests, Option.some.injEq, exists_eq_left',
      ← Utf8.decode?_eq_some_iff]
    cases Utf8.decode? bytes.content <;> simp

/-! ## Options -/

/-- The settings that options mean: a settings document if there is one, and otherwise the numbers,
of which a depth that is not positive means the default. -/
inductive Resolves : Option Options → Settings → Prop
  | absent : Resolves none {}
  | numbers {options : Options} (hDocument : options.document = none) :
      Resolves (some options)
        { maxDepth :=
            if options.maxDepth ≤ 0 then ({} : Settings).maxDepth else options.maxDepth.toNat
          displayFractions := options.displayFractions ≠ 0
          mathStyle := if options.mathStyle = 1 then .display else .inline }
  | document {options : Options} {bytes : Bytes} {settings : Settings}
      (hDocument : options.document = some bytes)
      (hSettings : Settings.ofDocument? (Utf8.decodeLossy bytes.content) = some settings) :
      Resolves (some options) settings

theorem fromNumbers_eq (options : Options) :
    options.fromNumbers =
      { maxDepth :=
          if options.maxDepth ≤ 0 then ({} : Settings).maxDepth else options.maxDepth.toNat
        displayFractions := options.displayFractions ≠ 0
        mathStyle := if options.mathStyle = 1 then .display else .inline } := by
  rw [Options.fromNumbers]
  by_cases hDepth : options.maxDepth ≤ 0
  · rw [if_pos hDepth, if_neg (Int.not_lt.mpr hDepth)]
  · rw [if_neg hDepth, if_pos (Int.not_le.mp hDepth)]

theorem settings_eq_ok_iff {options : Option Options} {resolved : Settings} :
    settings options = .ok resolved ↔ Resolves options resolved := by
  constructor
  · intro h
    cases options with
    | none =>
      cases h
      exact .absent
    | some options =>
      cases hDocument : options.document with
      | none =>
        simp only [settings, hDocument, Except.ok.injEq] at h
        subst h
        rw [fromNumbers_eq]
        exact .numbers hDocument
      | some bytes =>
        simp only [settings, hDocument] at h
        split at h
        · rename_i hSettings
          cases h
          exact .document hDocument hSettings
        · cases h
  · intro h
    cases h with
    | absent => rfl
    | numbers hDocument => simp only [settings, hDocument, fromNumbers_eq]
    | document hDocument hSettings => simp [settings, hDocument, hSettings]

/-- A settings document means the settings that hold what its entries say, and the defaults in the
fields that none of them names. -/
theorem resolves_document_iff {options : Options} {bytes : Bytes} {resolved : Settings}
    (hDocument : options.document = some bytes) :
    Resolves (some options) resolved ↔
      ∃ table, Toml.read (Utf8.decodeLossy bytes.content) = some table ∧
        Settings.Follows {} table resolved := by
  rw [← Settings.ofDocument?_eq_some_iff]
  constructor
  · intro h
    cases h with
    | numbers hNone => cases hDocument.symm.trans hNone
    | document hSome hSettings =>
      cases hDocument.symm.trans hSome
      exact hSettings
  · exact .document hDocument

/-! ## What is wrong with a call -/

/-- The first thing that is wrong with a call of a function, by its wording. -/
inductive IsWrong (function : Function) : Option Bytes → Option Options → Text → Prop
  | noInput {options : Option Options} :
      IsWrong function none options "Null input pointer".toList
  | notUtf8 {bytes : Bytes} {options : Option Options}
      (hBytes : ∀ text, bytes.content ≠ Utf8.encode text) :
      IsWrong function (some bytes) options "Invalid UTF-8 input".toList
  | settings {input : Option Bytes} {options : Option Options} {text : Text}
      (hText : Requests input text) (hOptions : ∀ settings, ¬ Resolves options settings) :
      IsWrong function input options Failure.settings.message
  | failed {input : Option Bytes} {options : Option Options} {text : Text} {settings : Settings}
      {failure : Failure} (hText : Requests input text) (hOptions : Resolves options settings)
      (hFailure : function.result settings text = .error failure) :
      IsWrong function input options failure.message

/-! ## Calls -/

theorem outcome_return {ε α β : Type} (run : Run ε α) (f : α → β) :
    (do return f (← run) : Run ε β).outcome = run.outcome.map f := by
  cases hRun : run.outcome with
  | error error => rw [Run.bind_of_error hRun]; rfl
  | ok value => rw [Run.bind_of_ok hRun]; rfl

/-- The outcome of a call, before it crosses the boundary. -/
def Function.outcome (function : Function) (input : Option Bytes) (options : Option Options) :
    Except Refusal Text := do
  let text ← requestText input
  let settings ← (settings options).mapError .failed
  (function.result settings text).mapError .failed

theorem outcome_run {f : Settings → Text → Run Failure Text} {function : Function}
    (hResult : ∀ settings text, (f settings text).outcome = function.result settings text)
    (input : Option Bytes) (options : Option Options) :
    (run f input options).outcome = function.outcome input options := by
  unfold run Function.outcome
  cases requestText input with
  | error refusal => rfl
  | ok text =>
    cases settings options with
    | error failure => rfl
    | ok settings => exact congrArg (Except.mapError Refusal.failed) (hResult settings text)

theorem answer_call_eq (function : Function) (input : Option Bytes) (options : Option Options) :
    (function.call input options).answer = .ofOutcome (function.outcome input options) := by
  cases function with
  | convert => exact congrArg Answer.ofOutcome (outcome_run (fun _ _ => rfl) input options)
  | previews =>
    apply congrArg Answer.ofOutcome
    exact outcome_run (fun _ _ => outcome_return _ _) input options
  | steps =>
    apply congrArg Answer.ofOutcome
    exact outcome_run (fun _ _ => outcome_return _ _) input options

theorem outcome_eq_ok_iff {function : Function} {input : Option Bytes} {options : Option Options}
    {result : Text} :
    function.outcome input options = .ok result ↔
      ∃ text settings, Requests input text ∧ Resolves options settings ∧
        function.result settings text = .ok result := by
  simp only [← requestText_eq_ok_iff, ← settings_eq_ok_iff]
  constructor
  · intro h
    obtain ⟨text, hText, h⟩ := exists_of_bind_ok h
    obtain ⟨resolved, hSettings, hResult⟩ := exists_of_bind_ok h
    exact ⟨text, resolved, hText, of_mapError_ok hSettings, of_mapError_ok hResult⟩
  · rintro ⟨text, resolved, hText, hSettings, hResult⟩
    simp [Function.outcome, hText, hSettings, hResult, Except.mapError, bind, Except.bind]

theorem isWrong_of_requestText {function : Function} {input : Option Bytes}
    {options : Option Options} {refusal : Refusal} (h : requestText input = .error refusal) :
    IsWrong function input options refusal.message := by
  cases input with
  | none =>
    cases h
    exact .noInput
  | some bytes =>
    simp only [requestText] at h
    split at h
    · cases h
    · rename_i hDecode
      cases h
      refine .notUtf8 fun text hBytes => ?_
      rw [Utf8.decode?_eq_some_iff.mpr hBytes] at hDecode
      cases hDecode

theorem not_resolves_of_settings {options : Option Options} {failure : Failure}
    (h : settings options = .error failure) :
    failure = .settings ∧ ∀ resolved, ¬ Resolves options resolved := by
  constructor
  · unfold settings at h
    split at h
    · cases h
    · split at h
      · cases h
      · split at h
        · cases h
        · cases h
          rfl
  · intro resolved hResolves
    rw [settings_eq_ok_iff.mpr hResolves] at h
    cases h

theorem outcome_eq_error_iff {function : Function} {input : Option Bytes}
    {options : Option Options} {wording : Text} :
    (∃ refusal, function.outcome input options = .error refusal ∧ refusal.message = wording) ↔
      IsWrong function input options wording := by
  constructor
  · rintro ⟨refusal, h, rfl⟩
    rcases bind_error h with hText | ⟨text, hText, h⟩
    · exact isWrong_of_requestText hText
    · have hText := requestText_eq_ok_iff.mp hText
      rcases bind_error h with hSettings | ⟨resolved, hSettings, hResult⟩
      · obtain ⟨failure, hFailure, rfl⟩ := exists_of_mapError_error hSettings
        obtain ⟨rfl, hOptions⟩ := not_resolves_of_settings hFailure
        exact .settings hText hOptions
      · obtain ⟨failure, hFailure, rfl⟩ := exists_of_mapError_error hResult
        exact .failed hText (settings_eq_ok_iff.mp (of_mapError_ok hSettings)) hFailure
  · intro h
    cases h with
    | noInput => exact ⟨.noInput, rfl, rfl⟩
    | @notUtf8 bytes _ hBytes =>
      refine ⟨.notUtf8, ?_, rfl⟩
      cases hDecode : Utf8.decode? bytes.content with
      | none =>
        simp only [Function.outcome, requestText, hDecode]
        rfl
      | some text => exact absurd (Utf8.decode?_eq_some_iff.mp hDecode) (hBytes text)
    | settings hText hOptions =>
      have hText := requestText_eq_ok_iff.mpr hText
      cases hSettings : Boundary.settings options with
      | error failure =>
        obtain ⟨rfl, -⟩ := not_resolves_of_settings hSettings
        refine ⟨.failed .settings, ?_, rfl⟩
        simp only [Function.outcome, hText, hSettings]
        rfl
      | ok resolved => exact absurd (settings_eq_ok_iff.mp hSettings) (hOptions resolved)
    | @failed _ _ _ _ failure hText hOptions hFailure =>
      refine ⟨.failed failure, ?_, rfl⟩
      simp only [Function.outcome, requestText_eq_ok_iff.mpr hText,
        settings_eq_ok_iff.mpr hOptions]
      exact congrArg (Except.mapError Refusal.failed) hFailure

/-- The answer to a call: either data or an error, without a NUL. It is data exactly when the
request is the encoding of a text, the options mean some settings and the function succeeds with
them, and then it is the result without its NULs. Otherwise the error is the wording of the first
thing that is wrong. -/
theorem Function.answer_call (function : Function) (input : Option Bytes)
    (options : Option Options) :
    let answer := (function.call input options).answer
    (answer.data? = none ↔ answer.error? ≠ none) ∧
      (∀ text, answer.data? = some text ∨ answer.error? = some text → '\x00' ∉ text) ∧
      (∀ data, answer.data? = some data ↔
        ∃ text settings result, Requests input text ∧ Resolves options settings ∧
          function.result settings text = .ok result ∧ data = result.filter (· ≠ '\x00')) ∧
      (∀ message, answer.error? = some message ↔
        ∃ wording, IsWrong function input options wording ∧
          message = wording.filter (· ≠ '\x00')) := by
  simp only [answer_call_eq]
  refine ⟨data?_ofOutcome_eq_none_iff _, ?_, ?_, ?_⟩
  · rintro text (hData | hError)
    · obtain ⟨result, -, rfl⟩ := data?_ofOutcome_eq_some_iff.mp hData
      exact nul_notMem_withoutNul result
    · obtain ⟨refusal, -, rfl⟩ := error?_ofOutcome_eq_some_iff.mp hError
      exact nul_notMem_withoutNul refusal.message
  · intro data
    rw [data?_ofOutcome_eq_some_iff]
    constructor
    · rintro ⟨result, hOutcome, rfl⟩
      obtain ⟨text, resolved, hText, hOptions, hResult⟩ := outcome_eq_ok_iff.mp hOutcome
      exact ⟨text, resolved, result, hText, hOptions, hResult, rfl⟩
    · rintro ⟨text, resolved, result, hText, hOptions, hResult, rfl⟩
      exact ⟨result, outcome_eq_ok_iff.mpr ⟨text, resolved, hText, hOptions, hResult⟩, rfl⟩
  · intro message
    rw [error?_ofOutcome_eq_some_iff]
    constructor
    · rintro ⟨refusal, hOutcome, rfl⟩
      exact ⟨refusal.message, outcome_eq_error_iff.mp ⟨refusal, hOutcome, rfl⟩, rfl⟩
    · rintro ⟨wording, hWrong, rfl⟩
      obtain ⟨refusal, hOutcome, rfl⟩ := outcome_eq_error_iff.mpr hWrong
      exact ⟨refusal, hOutcome, rfl⟩

/-- A variable as a request in JSON. -/
def variableRequest : Text := "\x7b\"type\":\"var\",\"value\":\"x\"\x7d".toList

/-- Options that hold a settings document. -/
def documented (document : String) : Options where
  document := some (Utf8.encode document.toList)

/-- The answer to a request in JSON, with a settings document. -/
def answerWith (document : String) (request : Text) : Answer :=
  (Function.convert.call (some (Utf8.encode request)) (some (documented document))).answer

/-- A document that sets two fields, one whose value does not fit its field, one that names no
field, and one under which the request fails; and a request that cannot be read. -/
theorem Function.answer_call_documents :
    (answerWith "math_style = \"display\"\nmax_depth = 1" variableRequest).data? =
        some "\\[x\\]".toList ∧
      (answerWith "max_depth = \"deep\"" variableRequest).error? =
        some "Configuration error: Invalid TOML: ".toList ∧
      (answerWith "colour = 1" variableRequest).error? =
        some "Configuration error: Invalid TOML: ".toList ∧
      (answerWith "max_depth = 0" variableRequest).error? =
        some "Render error: Expression nesting exceeds 0 levels".toList ∧
      (answerWith "" []).error? =
        some "Decode error: Invalid JSON: EOF while parsing a value".toList := by
  have hRequest : Requests (some (Utf8.encode variableRequest)) variableRequest :=
    ⟨_, rfl, by decide +kernel⟩
  have hRefused : ∀ document, settings (some (documented document)) = .error .settings →
      (answerWith document variableRequest).error? =
        some "Configuration error: Invalid TOML: ".toList := by
    intro document hSettings
    obtain ⟨-, -, -, hError⟩ := Function.answer_call .convert (some (Utf8.encode variableRequest))
      (some (documented document))
    exact (hError _).mpr
      ⟨_, .settings hRequest (not_resolves_of_settings hSettings).2, by decide⟩
  refine ⟨?_, hRefused _ (by decide +kernel), hRefused _ (by decide +kernel), ?_, ?_⟩
  · have hResult : Function.convert.result { maxDepth := 1, mathStyle := .display }
        variableRequest = .ok "\\[x\\]".toList := by decide +kernel
    obtain ⟨-, -, hData, -⟩ := Function.answer_call .convert (some (Utf8.encode variableRequest))
      (some (documented "math_style = \"display\"\nmax_depth = 1"))
    exact (hData _).mpr
      ⟨_, _, _, hRequest, .document rfl (by decide +kernel), hResult, by decide⟩
  · have hResult : Function.convert.result { maxDepth := 0 } variableRequest =
        .error (.render (.depthExceeded 0)) := by decide +kernel
    obtain ⟨-, -, -, hError⟩ := Function.answer_call .convert (some (Utf8.encode variableRequest))
      (some (documented "max_depth = 0"))
    exact (hError _).mpr
      ⟨_, .failed hRequest (.document rfl (by decide +kernel)) hResult, by decide⟩
  · have hEmpty : Requests (some (Utf8.encode [])) [] := ⟨_, rfl, rfl⟩
    have hResult : Function.convert.result {} [] =
        .error (.decode (.json .endInValue)) := by decide +kernel
    obtain ⟨-, -, -, hError⟩ := Function.answer_call .convert (some (Utf8.encode []))
      (some (documented ""))
    exact (hError _).mpr
      ⟨_, .failed hEmpty (.document rfl (by decide +kernel)) hResult, by decide⟩

end Formulary.Boundary
