import Formulary.Proofs.Markup.Prose
import Formulary.Proofs.Render.Run
import Formulary.Proofs.Render.Visit
import Formulary.Render.Markup

/-!
# Prose in converted trees

Texts, units and the runs of templates stand in groups `\text` of their own. The stages pass over
the markup as a whole and rewrite prose like the rest of it: a glyph becomes its command
(`exists_rewritten_prose`), and a parenthesis may pair with one in another group, with a fraction
between them. They do nothing else to prose, and leave its group where it is (`prose_convert`).
-/

namespace Formulary

open Delimiter Text

/-- Wherever the markup of a tree has a group of prose without backslashes, the converted tree has
the group in its place. The prose in it is written as it stands unless it has glyphs or delimiters
that are sized with a fraction. -/
theorem prose_convert {settings : Settings} {node : Node} {before text after : Text}
    (hRaw : (render settings node).outcome =
      .ok (before ++ ("\\text".toList ++ braced text) ++ after))
    (hSlash : '\\' ∉ text) :
    ∃ opening inside closing front back,
      (convert settings node).outcome = .ok (Markup.wrap settings.mathStyle
        (front ++ ("\\text".toList ++ braced (write inside)) ++ back)) ∧
      KeepsProse settings before text after opening inside closing front back := by
  obtain ⟨opening, inside, closing, front, back, hFinish, hKept⟩ :=
    finish_prose settings before after hSlash
  refine ⟨opening, inside, closing, front, back, ?_, hKept⟩
  rw [← hFinish]
  exact Run.outcome_bind_of_ok hRaw _

/-- A parenthesis in one text and one behind a glyph in another, with a fraction between them. -/
def apartProse : Node :=
  .ofChildren "muli".toList [.leaf "string".toList (.text "(ab".toList),
    .ofChildren "muli".toList [
      .ofChildren "frac".toList [.leaf "const".toList (.text "1".toList),
        .leaf "const".toList (.text "2".toList)],
      .leaf "string".toList (.text "π)".toList)]]

/-- The markup of `apartProse` before its last text. -/
def apartProseFront : Text := "\\text\x7b(ab\x7d\\frac\x7b1\x7d\x7b2\x7d".toList

theorem prose_convert_apartProse :
    (render {} apartProse).outcome =
      .ok (apartProseFront ++ ("\\text".toList ++ braced "π)".toList) ++ []) ∧
    '\\' ∉ "π)".toList ∧
    ∃ opening inside closing front back,
      (convert {} apartProse).outcome = .ok (Markup.wrap .inline
        (front ++ ("\\text".toList ++ braced (write inside)) ++ back)) ∧
      KeepsProse {} apartProseFront "π)".toList [] opening inside closing front back := by
  have hRaw : (render {} apartProse).outcome =
      .ok (apartProseFront ++ ("\\text".toList ++ braced "π)".toList) ++ []) := by
    decide +kernel
  have hSlash : '\\' ∉ "π)".toList := by decide
  exact ⟨hRaw, hSlash, prose_convert hRaw hSlash⟩

/-- A glyph as a text. -/
def glyphProse : Node := .leaf "string".toList (.text "π".toList)

/-- The markup of a tree without unknown kinds has a group of plain prose that is not found in the
converted tree. -/
def LosesProse (node : Node) (text : Text) : Prop :=
  (∀ below ∈ node.visits, below.tag? ≠ none) ∧ (∀ c ∈ ['\\', '\x7b', '\x7d'], c ∉ text) ∧
  ∃ raw out, (render {} node).outcome = .ok raw ∧
    mentions ("\\text".toList ++ braced text) raw = true ∧
    (convert {} node).outcome = .ok out ∧
    mentions ("\\text".toList ++ braced text) out = false

/-- A text that is a glyph is rewritten, and so is one with a parenthesis in a group around a
fraction. -/
theorem exists_rewritten_prose :
    LosesProse glyphProse "π".toList ∧ LosesProse apartProse "(ab".toList := by
  constructor
  · refine ⟨by decide +kernel, List.all_iff_forall_prop.mp (by decide),
      "\\text\x7bπ\x7d".toList, "\\(\\text\x7b\\pi \x7d\\)".toList, ?_, by decide, ?_, by decide⟩
    · decide +kernel
    · decide +kernel
  · refine ⟨by decide +kernel, List.all_iff_forall_prop.mp (by decide),
      apartProseFront ++ "\\text\x7bπ)\x7d".toList,
      "\\(\\text\x7b\\left(ab\x7d\\frac\x7b1\x7d\x7b2\x7d".toList ++
        "\\text\x7b\\pi \\right)\x7d\\)".toList, ?_, by decide, ?_, by decide⟩
    · decide +kernel
    · decide +kernel

end Formulary
