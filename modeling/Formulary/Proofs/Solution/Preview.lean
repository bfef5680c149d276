import Formulary.Proofs.Solution.Report
import Formulary.Proofs.Render.Run
import Formulary.Solution.Preview

/-!
# Previews fail one by one

Once the groups of a response are read, there is a report on its previews whatever its entries hold.
The report accounts for each entry that is shown by the outcome of that entry alone, so another
value in the place of an entry changes what becomes of this entry and nothing else, and entries of
groups that are not shown do not matter (`ofResponse_accounts`).
-/

namespace Formulary.Preview

open Json (Value)

/-- The entries of the group are shown. -/
def Group.isShown (group : Group) : Bool := group.kind = "vertical".toList

/-- What becomes of the entries that are shown, each by itself. -/
def outcomes (settings : Settings) (groups : List Group) : List (Except Failure Preview) :=
  (shownEntries groups).map fun entry => (ofEntry settings entry).outcome

theorem ofResponse_eq {text : Text} {groups : List Group} (settings : Settings)
    (hGroups : readGroups text = .ok groups) :
    ofResponse settings text = Report.collect ((shownEntries groups).map (ofEntry settings)) := by
  rw [ofResponse, hGroups]
  rfl

theorem exists_accounts_ofResponse {text : Text} {groups : List Group} (settings : Settings)
    (hGroups : readGroups text = .ok groups) :
    ∃ report, (ofResponse settings text).outcome = .ok report ∧
      report.Accounts (outcomes settings groups) := by
  obtain ⟨report, hReport, hAccounts⟩ :=
    @Report.exists_accounts_collect Preview Failure ((shownEntries groups).map (ofEntry settings))
  rw [List.map_map] at hAccounts
  rw [ofResponse_eq settings hGroups]
  exact ⟨report, hReport, hAccounts⟩

theorem outcomes_set {settings : Settings} {groups others : List Group} {index : Nat}
    {value : Value} (h : shownEntries others = (shownEntries groups).set index value) :
    outcomes settings others =
      (outcomes settings groups).set index (ofEntry settings value).outcome := by
  rw [outcomes, h, List.map_set, outcomes]

/-- A response whose groups can be read has a report that accounts for the entries shown, each by
its own outcome. When another response differs in one of these entries, the reports differ in what
they account for at its index only; when it differs in groups that are not shown, they do not
differ. -/
theorem ofResponse_accounts {settings : Settings} {text : Text} {groups : List Group}
    (hGroups : readGroups text = .ok groups) :
    ∃ report, (ofResponse settings text).outcome = .ok report ∧
      report.Accounts (outcomes settings groups) ∧
      (∀ other others, readGroups other = .ok others →
        ∀ index value, shownEntries others = (shownEntries groups).set index value →
          ∃ changed, (ofResponse settings other).outcome = .ok changed ∧
            changed.Accounts
              ((outcomes settings groups).set index (ofEntry settings value).outcome) ∧
            ∀ kept ≠ index, changed.entry? kept = report.entry? kept) ∧
      (∀ other others, readGroups other = .ok others →
        others.filter Group.isShown = groups.filter Group.isShown →
          (ofResponse settings other).outcome = .ok report) := by
  obtain ⟨report, hReport, hAccounts⟩ := exists_accounts_ofResponse settings hGroups
  refine ⟨report, hReport, hAccounts, ?_, ?_⟩
  · intro other others hOthers index value hEntries
    obtain ⟨changed, hChanged, hChanges⟩ := exists_accounts_ofResponse settings hOthers
    rw [outcomes_set hEntries] at hChanges
    refine ⟨changed, hChanged, hChanges, fun kept hKept => ?_⟩
    rw [hChanges.entries, hAccounts.entries, List.getElem?_set_ne (Ne.symm hKept)]
  · intro other others hOthers hShown
    have hEntries : shownEntries others = shownEntries groups :=
      congrArg (List.flatMap Group.entries) hShown
    rw [← hReport, ofResponse_eq settings hOthers, ofResponse_eq settings hGroups, hEntries]

/-! ## A response with failures -/

/-- The JSON value of a node with a value. -/
def leafValue (kind value : String) : Value :=
  .object [("type".toList, .string kind.toList), ("value".toList, .string value.toList)]

/-- The JSON value of a template. -/
def templateValue (text : String) (args : List Value) : Value :=
  .object [("args".toList, .array args),
    ("localizedText".toList, .object [("text".toList, .string text.toList)])]

/-- An entry that can be rendered. -/
def solvedEntry : Value :=
  .object [("nodeAction".toList, .boolean true), ("preview".toList, .object [
    ("content".toList, .object [("problem".toList, leafValue "var" "x_1"),
      ("solution".toList, leafValue "const" "2.5")]),
    ("method".toList, templateValue "by hand" []),
    ("title".toList, templateValue "Find ARG1" [leafValue "var" "x_1"])])]

/-- Three groups, of which the second is not shown. -/
def mixedGroups : List Group := [
  { kind := "vertical".toList, entries := [.null, solvedEntry] },
  { kind := "horizontal".toList, entries := [solvedEntry] },
  { kind := "vertical".toList, entries := [.array []] }]

/-- A response with these groups. -/
def mixedResponse : Text :=
  (Value.object [("groups".toList, .array (mixedGroups.map fun group =>
    .object [("entries".toList, .array group.entries),
      ("type".toList, .string group.kind)]))]).print

theorem ofResponse_accounts_mixed :
    readGroups mixedResponse = .ok mixedGroups ∧
      (∃ report, (ofResponse {} mixedResponse).outcome = .ok report ∧
        report.Accounts (outcomes {} mixedGroups)) ∧
      ((ofResponse {} mixedResponse).outcome.map fun report =>
        (report.items.map Preview.title, report.failures.map Prod.fst)) =
          .ok (["Find \\(x_\x7b1\x7d\\)".toList], [0, 2]) := by
  have hGroups : readGroups mixedResponse = .ok mixedGroups := by
    set_option maxRecDepth 100000 in exact rfl
  obtain ⟨report, hReport, hAccounts, -⟩ := @ofResponse_accounts {} _ _ hGroups
  exact ⟨hGroups, ⟨report, hReport, hAccounts⟩, by decide +kernel⟩

end Formulary.Preview
