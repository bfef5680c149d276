import Formulary.Proofs.Boundary.Answer
import Formulary.Proofs.Solution.Entry
import Formulary.Proofs.Solution.Step

/-!
# Reports that cross the boundary

What a caller gets back for a response is the text of a report, and reading this text as JSON gives
the report: its strings character by character, its failures with their indices and wordings, and
the action of each preview, which is the one of its entry when its numbers are integers
(`report_of_data`). The text has no NUL to lose on the way, whatever characters the strings have.

* `Report.readsAs_report`: the text of a report is read as the report when those of its items are
  and the indices of its failures fit 64 bits;
* `Preview.readsAs_report`, `Step.readsAs_report`: these hold of the report on a response, which has
  no more entries than characters;
* `Preview.nodeActions_eq`: the actions of the previews are those of their entries.
-/

namespace Formulary

open Json Json.Reader

/-! ## Reports as JSON -/

namespace Report

variable {α : Type}

/-- A failure as a JSON value. -/
def failureValue (failure : Nat × Failure) : Value :=
  .object [("error".toList, .string failure.2.message),
    ("index".toList, .number (.integer failure.1))]

/-- A report as a JSON value. -/
def value (itemValue : α → Value) (report : Report α) : Value :=
  .object [("failures".toList, .array (report.failures.map failureValue)),
    ("items".toList, .array (report.items.map itemValue))]

/-- The indices of the failures fit 64 bits. -/
def IsIndexed (report : Report α) : Prop :=
  ∀ failure ∈ report.failures, failure.1 < Number.unsignedBound

theorem readsAs_index {index : Nat} (h : index < Number.unsignedBound) (room : Nat) :
    ReadsAs room (Text.ofNat index) (.number (.integer index)) := by
  have hRead : Number.IsRead (.integer index) := by
    constructor
    · omega
    · exact_mod_cast h
  have hText : Number.text (.integer index) = Text.ofNat index := by
    rw [Number.text, Text.ofInt, if_neg (by omega), Int.natAbs_natCast]
  have hIndex := readsAs_number hRead room
  rwa [hText, reread_of_isWhole hRead trivial] at hIndex

theorem readsAs_failure {failure : Nat × Failure} (h : failure.1 < Number.unsignedBound)
    (room : Nat) : ReadsAs (room + 1) (printFailure failure) (failureValue failure) := by
  have hMembers : List.Forall₂ (MemberReadsAs room)
      [("index".toList, Text.ofNat failure.1),
        ("error".toList, printString failure.2.message)]
      [("index".toList, .number (.integer failure.1)),
        ("error".toList, .string failure.2.message)] :=
    .cons ⟨rfl, readsAs_index h room⟩ (.cons ⟨rfl, readsAs_string _ room⟩ .nil)
  exact readsAs_object hMembers

/-- The text of a report is read as the report when the texts of its items are. -/
theorem readsAs_report {printItem : α → Text} {itemValue : α → Value} {report : Report α}
    {room : Nat}
    (hItems : ∀ item ∈ report.items, ReadsAs (room + 1) (printItem item) (itemValue item))
    (hIndexed : report.IsIndexed) :
    ReadsAs (room + 3) (report.print printItem) (report.value itemValue) := by
  have hFailures : ∀ failure ∈ report.failures,
      ReadsAs (room + 1) (printFailure failure) (failureValue failure) :=
    fun failure hFailure => readsAs_failure (hIndexed failure hFailure) room
  have hMembers : List.Forall₂ (MemberReadsAs (room + 2))
      [("items".toList, printArray (report.items.map printItem)),
        ("failures".toList, printArray (report.failures.map printFailure))]
      [("items".toList, .array (report.items.map itemValue)),
        ("failures".toList, .array (report.failures.map failureValue))] :=
    .cons ⟨rfl, readsAs_array (forall₂_map hItems)⟩
      (.cons ⟨rfl, readsAs_array (forall₂_map hFailures)⟩ .nil)
  exact readsAs_object hMembers

/-- A report has no index at or behind the number of what it accounts for. -/
theorem Accounts.isIndexed {report : Report α} {outcomes : List (Except Failure α)}
    (h : report.Accounts outcomes) (hLength : outcomes.length ≤ Number.unsignedBound) :
    report.IsIndexed := by
  rintro ⟨index, failure⟩ hFailure
  have hOutcome := (h.failures index failure).mp hFailure
  obtain ⟨hIndex, -⟩ := List.getElem?_eq_some_iff.mp hOutcome
  exact Nat.lt_of_lt_of_le hIndex hLength

end Report

namespace Preview

/-- A preview as a JSON value. -/
def value (preview : Preview) : Value :=
  .object [("method".toList, .string preview.method), ("nodeAction".toList, preview.nodeAction),
    ("problem".toList, .string preview.problem), ("solution".toList, .string preview.solution),
    ("title".toList, .string preview.title)]

/-- A preview with the numbers of its action as their texts are read. -/
def reread (preview : Preview) : Preview :=
  { preview with nodeAction := preview.nodeAction.reread }

theorem readsAs_preview {preview : Preview} {room : Nat} (hAction : preview.nodeAction.IsRead)
    (hRoom : preview.nodeAction.height ≤ room) :
    ReadsAs (room + 1) preview.print preview.reread.value := by
  have hMembers : List.Forall₂ (MemberReadsAs room)
      [("title".toList, printString preview.title), ("method".toList, printString preview.method),
        ("problem".toList, printString preview.problem),
        ("solution".toList, printString preview.solution),
        ("nodeAction".toList, preview.nodeAction.print)]
      [("title".toList, .string preview.title), ("method".toList, .string preview.method),
        ("problem".toList, .string preview.problem), ("solution".toList, .string preview.solution),
        ("nodeAction".toList, preview.nodeAction.reread)] :=
    .cons ⟨rfl, readsAs_string _ room⟩ (.cons ⟨rfl, readsAs_string _ room⟩
      (.cons ⟨rfl, readsAs_string _ room⟩ (.cons ⟨rfl, readsAs_string _ room⟩
        (.cons ⟨rfl, Value.readsAs_print hAction hRoom⟩ .nil))))
  exact readsAs_object hMembers

end Preview

namespace Step

/-- A step as a JSON value. -/
def value (step : Step) : Value :=
  .object [("header".toList, .string step.header), ("step".toList, .string step.step)]

theorem readsAs_step (step : Step) (room : Nat) : ReadsAs (room + 1) step.print step.value := by
  have hMembers : List.Forall₂ (MemberReadsAs room)
      [("step".toList, printString step.step), ("header".toList, printString step.header)]
      [("step".toList, .string step.step), ("header".toList, .string step.header)] :=
    .cons ⟨rfl, readsAs_string _ room⟩ (.cons ⟨rfl, readsAs_string _ room⟩ .nil)
  exact readsAs_object hMembers

end Step

/-! ## Reports on responses -/

namespace Preview

variable {settings : Settings} {text : Text} {groups : List Group} {report : Report Preview}

theorem exists_readGroups (h : (ofResponse settings text).outcome = .ok report) :
    ∃ groups, readGroups text = .ok groups ∧ report.Accounts (outcomes settings groups) := by
  obtain ⟨groups, hGroups, -⟩ := Run.exists_of_outcome_bind_ok h
  have hGroups := of_mapError_ok hGroups
  obtain ⟨other, hOther, hAccounts⟩ := exists_accounts_ofResponse settings hGroups
  rw [h] at hOther
  cases hOther
  exact ⟨groups, hGroups, hAccounts⟩

/-- The entries that become previews. -/
def renderedEntries (settings : Settings) (groups : List Group) : List Value :=
  (shownEntries groups).filter fun entry => (ofEntry settings entry).outcome.isOk

/-- The actions of previews are those of their entries. -/
theorem nodeActions_eq (hGroups : readGroups text = .ok groups)
    (hAccounts : report.Accounts (outcomes settings groups)) :
    report.items.map Preview.nodeAction = (renderedEntries settings groups).map actionOf := by
  have hAll (entries : List Value) (h : ∀ entry ∈ entries, entry.IsRead) :
      ((entries.map fun entry => (ofEntry settings entry).outcome).filterMap
          Except.toOption).map Preview.nodeAction =
        (entries.filter fun entry => (ofEntry settings entry).outcome.isOk).map actionOf := by
    induction entries with
    | nil => rfl
    | cons entry entries ih =>
      obtain ⟨hEntry, hEntries⟩ := List.forall_mem_cons.mp h
      cases hOutcome : (ofEntry settings entry).outcome with
      | error failure =>
        rw [List.map_cons, List.filter_cons, hOutcome]
        exact ih hEntries
      | ok preview =>
        rw [List.map_cons, List.filter_cons, hOutcome]
        change preview.nodeAction :: List.map _ _ = actionOf entry :: List.map _ _
        rw [nodeAction_of_ofEntry hEntry hOutcome, ih hEntries]
  rw [hAccounts.items]
  exact hAll _ fun entry hEntry => (isRead_of_mem_shownEntries hGroups hEntry).1

theorem isRead_nodeAction (hGroups : readGroups text = .ok groups)
    (hAccounts : report.Accounts (outcomes settings groups)) {preview : Preview}
    (hPreview : preview ∈ report.items) :
    preview.nodeAction.IsRead ∧ preview.nodeAction.height ≤ nestingLimit - 3 := by
  have hMem : preview.nodeAction ∈ report.items.map Preview.nodeAction :=
    List.mem_map_of_mem hPreview
  rw [nodeActions_eq hGroups hAccounts] at hMem
  obtain ⟨entry, hEntry, hAction⟩ := List.mem_map.mp hMem
  obtain ⟨hRead, hHeight⟩ := isRead_of_mem_shownEntries hGroups (List.mem_of_mem_filter hEntry)
  obtain ⟨hActionRead, hActionHeight⟩ := isRead_actionOf hRead
  rw [← hAction]
  exact ⟨hActionRead, Nat.le_trans hActionHeight hHeight⟩

/-- The text of a report on previews is read as the report. -/
theorem readsAs_report (hLength : text.length < Number.unsignedBound)
    (hGroups : readGroups text = .ok groups)
    (hAccounts : report.Accounts (outcomes settings groups)) :
    ReadsAs nestingLimit (report.print Preview.print)
      (report.value fun preview => preview.reread.value) := by
  have hCount : (outcomes settings groups).length ≤ Number.unsignedBound := by
    have hShown := length_shownEntries_le hGroups
    rw [outcomes, List.length_map]
    omega
  refine Report.readsAs_report (fun preview hPreview => ?_) (hAccounts.isIndexed hCount)
  obtain ⟨hRead, hHeight⟩ := isRead_nodeAction hGroups hAccounts hPreview
  exact readsAs_preview hRead hHeight

end Preview

namespace Step

/-- The text of a report on steps is read as the report. -/
theorem readsAs_report {settings : Settings} {text : Text} {report : Report Step}
    (hLength : text.length < Number.unsignedBound)
    (h : (ofResponse settings text).outcome = .ok report) :
    ReadsAs nestingLimit (report.print Step.print) (report.value Step.value) := by
  obtain ⟨result, hResult, -⟩ := Run.exists_of_outcome_bind_ok h
  have hResult := of_mapError_ok hResult
  obtain ⟨other, hOther, hAccounts⟩ := exists_accounts_ofResponse settings hResult
  rw [h] at hOther
  cases hOther
  have hCount : (outcomes settings result).length ≤ Number.unsignedBound := by
    have hSteps := length_steps_le hResult
    rw [outcomes, List.length_append, List.length_map, List.length_singleton]
    omega
  exact Report.readsAs_report (fun step _ => readsAs_step step _) (hAccounts.isIndexed hCount)

end Step

namespace Boundary

/-- The text of a request has no more characters than the request has bytes. -/
theorem Requests.length_le {input : Option Bytes} {text : Text} (h : Requests input text) :
    text.length ≤ (input.getD []).length := by
  obtain ⟨bytes, rfl, hContent⟩ := h
  rw [Option.getD_some]
  calc text.length ≤ (Utf8.encode text).length := Utf8.length_le_encode text
    _ = bytes.content.length := by rw [hContent]
    _ ≤ bytes.length := (List.takeWhile_sublist _).length_le

/-- Data is the result of a function, without its NULs. -/
theorem exists_result_of_data {function : Function} {input : Option Bytes}
    {options : Option Options} {data : Text}
    (h : (function.call input options).answer.data? = some data) :
    ∃ text settings result, Requests input text ∧ Resolves options settings ∧
      function.result settings text = .ok result ∧ data = withoutNul result := by
  rw [answer_call_eq, data?_ofOutcome_eq_some_iff] at h
  obtain ⟨result, hOutcome, rfl⟩ := h
  obtain ⟨text, settings, hText, hSettings, hResult⟩ := outcome_eq_ok_iff.mp hOutcome
  exact ⟨text, settings, result, hText, hSettings, hResult, rfl⟩

theorem withoutNul_eq_self {text : Text} (h : '\x00' ∉ text) : withoutNul text = text := by
  refine List.filter_eq_self.mpr fun c hc => decide_eq_true ?_
  rintro rfl
  exact h hc

/-- The data that a caller gets back for a response is the text of the report on it, which has no
NUL to lose, and reading it as JSON gives the report: every string, and every failure with its index
and its wording. The action of a preview is the one of its entry, and is read back as it was when
all numbers in it are integers. A request whose bytes can be counted in 64 bits has no entry whose
index cannot. -/
theorem report_of_data (input : Option Bytes) (options : Option Options)
    (hSize : (input.getD []).length < Nat.pow 2 64) :
    (∀ data, (previews input options).answer.data? = some data →
      ∃ text settings groups report, Requests input text ∧ Resolves options settings ∧
        Preview.readGroups text = .ok groups ∧
        (Preview.ofResponse settings text).outcome = .ok report ∧
        withoutNul (report.print Preview.print) = report.print Preview.print ∧
        data = report.print Preview.print ∧
        readWholeText (readValue nestingLimit) data =
          .ok (report.value fun preview => preview.reread.value) ∧
        report.items.map Preview.nodeAction =
          (Preview.renderedEntries settings groups).map Preview.actionOf ∧
        ∀ preview ∈ report.items, preview.nodeAction.IsWhole → preview.reread = preview) ∧
    ∀ data, (steps input options).answer.data? = some data →
      ∃ text settings report, Requests input text ∧ Resolves options settings ∧
        (Step.ofResponse settings text).outcome = .ok report ∧
        withoutNul (report.print Step.print) = report.print Step.print ∧
        data = report.print Step.print ∧
        readWholeText (readValue nestingLimit) data = .ok (report.value Step.value) := by
  constructor
  · intro data hData
    obtain ⟨text, settings, result, hText, hSettings, hResult, rfl⟩ :=
      @exists_result_of_data .previews _ _ _ hData
    have hLength : text.length < Number.unsignedBound := Nat.lt_of_le_of_lt hText.length_le hSize
    cases hReport : (Preview.ofResponse settings text).outcome with
    | error failure =>
      simp only [Function.result, hReport] at hResult
      cases hResult
    | ok report =>
      simp only [Function.result, hReport] at hResult
      cases hResult
      obtain ⟨groups, hGroups, hAccounts⟩ := Preview.exists_readGroups hReport
      have hReads := Preview.readsAs_report hLength hGroups hAccounts
      have hPlain := withoutNul_eq_self hReads.plain
      refine ⟨text, settings, groups, report, hText, hSettings, hGroups, hReport, hPlain, hPlain,
        ?_, Preview.nodeActions_eq hGroups hAccounts, fun preview hPreview hWhole => ?_⟩
      · rw [hPlain]
        exact hReads.readWholeText_eq
      · have hRead := (Preview.isRead_nodeAction hGroups hAccounts hPreview).1
        rw [Preview.reread, Value.reread_of_isWhole hRead hWhole]
  · intro data hData
    obtain ⟨text, settings, result, hText, hSettings, hResult, rfl⟩ :=
      @exists_result_of_data .steps _ _ _ hData
    have hLength : text.length < Number.unsignedBound := Nat.lt_of_le_of_lt hText.length_le hSize
    cases hReport : (Step.ofResponse settings text).outcome with
    | error failure =>
      simp only [Function.result, hReport] at hResult
      cases hResult
    | ok report =>
      simp only [Function.result, hReport] at hResult
      cases hResult
      have hReads := Step.readsAs_report hLength hReport
      have hPlain := withoutNul_eq_self hReads.plain
      refine ⟨text, settings, report, hText, hSettings, hReport, hPlain, hPlain, ?_⟩
      rw [hPlain]
      exact hReads.readWholeText_eq

/-- An action with the least and the greatest integer, and characters that are escaped. -/
def deepAction : Value :=
  .object [("list".toList, .array [.number (.integer (-9223372036854775808)), .array [],
      .number (.integer 18446744073709551615)]),
    ("text".toList, .string "\u0000\u001f\"\\ж".toList)]

/-- A response for both functions. The first of its entries cannot be read, the title of the second
begins with a NUL, and its steps are the answer only. -/
def deepResponse : Text :=
  (Value.object [
    ("groups".toList, .array [.object [
      ("entries".toList, .array [.null, .object [("nodeAction".toList, deepAction),
        ("preview".toList, .object [
          ("content".toList, .object [("problem".toList, Preview.leafValue "var" "x"),
            ("solution".toList, Preview.leafValue "const" "2.5")]),
          ("method".toList, Preview.templateValue "\\" []),
          ("title".toList, Preview.templateValue "\u0000ARG1" [Preview.leafValue "var" "x"])])]]),
      ("type".toList, .string "vertical".toList)]]),
    ("result".toList, .object [("solution".toList, Preview.leafValue "const" "2.5")])]).print

theorem report_of_data_deep :
    (Utf8.encode deepResponse).length < Nat.pow 2 64 ∧
      (∃ (data : Text) (report : Report Preview),
        (previews (some (Utf8.encode deepResponse)) none).answer.data? = some data ∧
        readWholeText (readValue nestingLimit) data = .ok (report.value Preview.value) ∧
        report.items.map Preview.title = ["\u0000\\(x\\)".toList] ∧
        report.items.map (fun preview => preview.nodeAction.print) = [deepAction.print] ∧
        report.failures.map Prod.fst = [0]) ∧
      ∃ (data : Text) (report : Report Step),
        (steps (some (Utf8.encode deepResponse)) none).answer.data? = some data ∧
        readWholeText (readValue nestingLimit) data = .ok (report.value Step.value) ∧
        report.items = [⟨"\\(2\x7b,\x7d5\\)".toList, "Ответ".toList⟩] := by
  have hSize : (Utf8.encode deepResponse).length < Nat.pow 2 64 := by decide +kernel
  have hRequest : requestText (some (Utf8.encode deepResponse)) = .ok deepResponse := by
    decide +kernel
  have hRequests : ∀ text, Requests (some (Utf8.encode deepResponse)) text → text = deepResponse :=
    fun text hText => by
      rw [← requestText_eq_ok_iff, hRequest] at hText
      exact (Except.ok.inj hText).symm
  have hResolves : ∀ settings, Resolves none settings → settings = {} := fun settings h => by
    cases h
    rfl
  obtain ⟨hPreviews, hSteps⟩ := report_of_data (some (Utf8.encode deepResponse)) none hSize
  refine ⟨hSize, ?_, ?_⟩
  · have hSome : (previews (some (Utf8.encode deepResponse)) none).answer.data?.isSome := by
      decide +kernel
    have hReport : ((Preview.ofResponse {} deepResponse).outcome.map fun report =>
        (report.items.map Preview.title, report.items.map fun preview => preview.nodeAction.print,
          report.items.map fun preview => preview.nodeAction.numbers,
          report.failures.map Prod.fst)) =
        .ok (["\u0000\\(x\\)".toList], [deepAction.print], [deepAction.numbers], [0]) := by
      decide +kernel
    obtain ⟨data, hData⟩ := Option.isSome_iff_exists.mp hSome
    obtain ⟨text, settings, -, report, hText, hSettings, -, hOutcome, -, -, hDecoded, -, hWhole⟩ :=
      hPreviews data hData
    cases hRequests text hText
    cases hResolves settings hSettings
    rw [hOutcome] at hReport
    obtain ⟨hTitles, hActions, hNumbers, hFailures⟩ : _ ∧ _ ∧ _ ∧ _ := by
      simpa only [Except.map, Except.ok.injEq, Prod.mk.injEq] using hReport
    have hItems : report.items.map (fun preview => preview.reread.value) =
        report.items.map Preview.value := by
      refine List.map_congr_left fun preview hPreview => ?_
      have hMem : preview.nodeAction.numbers ∈
          report.items.map fun preview => preview.nodeAction.numbers :=
        List.mem_map_of_mem hPreview
      rw [hNumbers] at hMem
      have hAction : preview.nodeAction.IsWhole := by
        rw [Value.IsWhole, List.mem_singleton.mp hMem]
        decide
      rw [hWhole preview hPreview hAction]
    rw [Report.value, hItems] at hDecoded
    exact ⟨data, report, hData, hDecoded, hTitles, hActions, hFailures⟩
  · have hSome : (steps (some (Utf8.encode deepResponse)) none).answer.data?.isSome := by
      decide +kernel
    have hReport : ((Step.ofResponse {} deepResponse).outcome.map Report.items) =
        .ok [⟨"\\(2\x7b,\x7d5\\)".toList, "Ответ".toList⟩] := by
      decide +kernel
    obtain ⟨data, hData⟩ := Option.isSome_iff_exists.mp hSome
    obtain ⟨text, settings, report, hText, hSettings, hOutcome, -, -, hDecoded⟩ :=
      hSteps data hData
    cases hRequests text hText
    cases hResolves settings hSettings
    rw [hOutcome] at hReport
    exact ⟨data, report, hData, hDecoded, Except.ok.inj hReport⟩

end Boundary

end Formulary
