import Formulary.Render.Repeating
import Formulary.Text.Index
import Formulary.Tree.Node

/-!
# Layouts

How the markup of a node is put together. `Layout.ofTag` is the table of all layouts:

* `Layout.value`: a form of the node's own value;
* `Layout.fixed`: pieces of markup with the operands at given places; an operand may be grouped,
  that is put between parentheses when it is loose;
* `Layout.series`: all operands with a separator between them;
* `Layout.repeating` and `Layout.template`: a repeating decimal and a localized template, which
  read the values of their children.
-/

namespace Formulary

/-- A piece of a layout. -/
inductive Piece where
  /-- Markup as it stands. -/
  | text (markup : Text)
  /-- The operand at an index. -/
  | operand (index : Nat)
  /-- The operand at an index, between parentheses when it is loose. -/
  | grouped (index : Nat)
  deriving DecidableEq, Repr, Inhabited

/-- A form in which the value of a node is written. -/
inductive ValueForm where
  /-- Prose. -/
  | words
  /-- A unit of measure, with a space before it. -/
  | unit
  /-- A name, with its indices as subscripts. -/
  | variable
  /-- A number, with a decimal comma. -/
  | constant
  deriving DecidableEq, Repr, Inhabited

/-- How the markup of a node is put together. -/
inductive Layout where
  | value (form : ValueForm)
  | fixed (pieces : List Piece)
  | series (opening separator closing : Text)
  | repeating
  | template
  deriving DecidableEq, Repr, Inhabited

/-- Write a value in a form. -/
def ValueForm.write : ValueForm → Text → Text
  | .words, value => "\\text".toList ++ Text.braced value
  | .unit, value => "\\text".toList ++ Text.braced (' ' :: value)
  | .variable, value => braceIndices value
  | .constant, value => Text.replaceFirst ['.'] Repeating.comma value

namespace Layout

/-- Markup as it stands. -/
def put (markup : String) : List Piece := [.text markup.toList]

/-- The operand at an index. -/
def slot (index : Nat) : List Piece := [.operand index]

/-- The operand at an index, grouped. -/
def tight (index : Nat) : List Piece := [.grouped index]

/-- Pieces between braces. -/
def braced (pieces : List Piece) : List Piece :=
  .text ['\x7b'] :: pieces ++ [.text ['\x7d']]

/-- Pieces between parentheses. -/
def parenthesized (pieces : List Piece) : List Piece := .text ['('] :: pieces ++ [.text [')']]

/-- Two operands with an operator between them. -/
def operator (markup : String) : Layout := .fixed (slot 0 ++ put markup ++ slot 1)

/-- A function's name before its operand, which is grouped. -/
def function (name : List Piece) : Layout := .fixed (name ++ put " " ++ tight 0)

/-- A name that is set upright. -/
def upright (name : String) : List Piece := put "\\operatorname" ++ braced (put name)

/-- A fraction. -/
def fraction (above below : List Piece) : List Piece :=
  put "\\frac" ++ braced above ++ braced below

/-- An interval between two ends. -/
def interval (opening closing : String) : Layout :=
  .fixed (put opening ++ slot 0 ++ put ";" ++ slot 1 ++ put closing)

/-- The sign of a degree. -/
def degree : List Piece := put "^" ++ braced (put "\\circ")

/-- The opening of an environment. -/
def opening (name : String) : Text := "\\begin".toList ++ Text.braced name.toList

/-- The end of an environment. -/
def closing (name : String) : Text := "\\end".toList ++ Text.braced name.toList

/-- The layout of a tag. -/
def ofTag : Tag → Layout
  -- Literals
  | .words => .value .words
  | .unit => .value .unit
  | .variable => .value .variable
  | .constant => .value .constant
  | .template => .template
  | .repeating => .repeating
  | .indexed => .fixed (slot 0 ++ put "_" ++ braced (slot 1))
  -- Arithmetic
  | .negative => .fixed (put "-" ++ slot 0)
  | .positive => .fixed (put "+" ++ slot 0)
  | .equals => operator "="
  | .sum => operator "+"
  | .difference => operator "-"
  | .ratio => operator ":"
  | .product => operator "\\cdot "
  | .juxtaposition => operator ""
  | .sumOrDifference => operator "\\pm "
  | .plusMinus => .fixed (put "\\pm" ++ slot 0)
  | .fraction => .fixed (fraction (slot 0) (slot 1))
  | .mixedFraction => .fixed (slot 0 ++ fraction (slot 1) (slot 2))
  | .power => .fixed (slot 0 ++ put "^" ++ braced (slot 1))
  | .factorial => .fixed (slot 0 ++ put "!")
  | .percentage => .fixed (slot 0 ++ put "\\%")
  | .bracket => .fixed (parenthesized (slot 0))
  | .squareRoot => .fixed (put "\\sqrt" ++ braced (slot 0))
  | .root => .fixed (put "\\sqrt[" ++ slot 0 ++ put "]" ++ braced (slot 1))
  | .logarithm => .fixed (put "\\log_" ++ braced (slot 0) ++ tight 1)
  | .naturalLogarithm => function (put "\\ln")
  | .absolute => .fixed (put "|" ++ slot 0 ++ put "|")
  -- Relations
  | .notEquals => operator "\\neq "
  | .approximates => operator "\\approx "
  | .approximateSign => .fixed (put "\\approx " ++ slot 0)
  | .greater => operator " > "
  | .less => operator " < "
  | .greaterOrEqual => operator "\\geq "
  | .lessOrEqual => operator "\\leq "
  -- Lists
  | .commaList => .series [] ", ".toList []
  | .alternatives => .series [] "; ".toList []
  | .column =>
    .series (opening "array" ++ Text.braced ['l']) "\\\\".toList (closing "array")
  -- Angles and trigonometry
  | .degrees => .fixed (slot 0 ++ degree)
  | .degreesMinutes => .fixed (slot 0 ++ degree ++ put " " ++ slot 1 ++ put "'")
  | .degreesMinutesSeconds =>
    .fixed (slot 0 ++ degree ++ put " " ++ slot 1 ++ put "' " ++ slot 2 ++ put "''")
  | .sine => function (put "\\sin")
  | .cosine => function (put "\\cos")
  | .tangent => function (upright "tg")
  | .cotangent => function (upright "ctg")
  | .arcsine => function (put "\\arcsin")
  | .arccosine => function (put "\\arccos")
  | .arctangent => function (upright "arctg")
  | .arccotangent => function (upright "arcctg")
  | .secant => function (put "\\sec")
  | .cosecant => function (put "\\csc")
  -- Sets and intervals
  | .member => operator "\\in "
  | .nonMember => operator "\\notin "
  | .union => operator "\\cup "
  | .openInterval => interval "(" ")"
  | .closedOpenInterval => interval "[" ")"
  | .openClosedInterval => interval "(" "]"
  | .closedInterval => interval "[" "]"
  | .set => .series ['\\', '\x7b'] ", ".toList ['\\', '\x7d']
  | .tuple => .series ['('] ", ".toList [')']
  | .condition => operator "|"
  | .conditionList => operator ", "
  -- Systems and applications
  | .system => .series (opening "cases") ",\\\\ ".toList (';' :: closing "cases")
  | .application => .fixed (slot 0 ++ parenthesized (slot 1))
  | .inverseApplication =>
    .fixed (slot 0 ++ put "^" ++ braced (put "-1") ++ parenthesized (slot 1))
  -- Calculus
  | .derivative => .fixed (fraction (put "d") (put "d" ++ slot 0) ++ parenthesized (slot 1))
  | .prime => .fixed (slot 0 ++ put "'")
  | .doublePrime => .fixed (slot 0 ++ put "''")
  | .nthPrime => .fixed (slot 1 ++ put "^" ++ braced (parenthesized (slot 0)))
  | .setDifference => operator "\\backslash "
  | .derivativeQuotient => .fixed (fraction (put "d" ++ slot 0) (put "d" ++ slot 1))
  | .partialDerivative =>
    .fixed (fraction (put "\\partial") (put "\\partial " ++ slot 0) ++ parenthesized (slot 1))
  | .partialQuotient =>
    .fixed (fraction (put "\\partial " ++ slot 0) (put "\\partial " ++ slot 1))
  | .limit =>
    .fixed (put "\\lim\\limits_" ++ braced (slot 0 ++ put "\\to " ++ slot 1) ++ put " " ++
      tight 2)
  | .finiteSum =>
    .fixed (put "\\sum\\limits_" ++ braced (slot 0 ++ put "=" ++ slot 1) ++ put "^" ++
      braced (slot 2) ++ put " " ++ slot 3)
  | .integral => .fixed (put "\\int " ++ parenthesized (slot 0) ++ put " d" ++ slot 1)
  | .definiteIntegral =>
    .fixed (put "\\int\\limits_" ++ braced (slot 0) ++ put "^" ++ braced (slot 1) ++ put " " ++
      parenthesized (slot 2) ++ put " d" ++ slot 3)
  | .differential => .fixed (put "d" ++ slot 0)
  | .evaluationBar =>
    .fixed (slot 0 ++ put " \\Bigg|^" ++ braced (slot 1) ++ put "_" ++ braced (slot 2))
  -- Blanks and combinations
  | .blankBox => .fixed (slot 0 ++ put " \\ \\fbox" ++ braced (put "?") ++ put "\\ " ++ slot 1)
  | .boxLess => operator " < "
  | .boxGreater => operator " > "
  | .boxEquals => operator " = "
  | .functionProduct => .fixed (parenthesized (slot 0) ++ parenthesized (slot 1))
  | .composition => operator "\\circ "
  | .piecewise => .series (opening "cases") "\\\\ ".toList (closing "cases")

end Layout

/-! ## Filling a layout -/

/-- The node's markup falls apart as the operand of an operator such as `sin`. -/
def Node.isLoose (node : Node) : Bool :=
  match node.tag? with
  | some tag => tag.isLoose
  | none => false

/-- The markup of a node as the operand of an operator: between parentheses when it is loose. -/
def Node.group (node : Node) (markup : Text) : Text :=
  if node.isLoose then '(' :: markup ++ [')'] else markup

/-- The text of a piece, given the operands and their markup. -/
def Piece.fill (operands : List (Node × Text)) : Piece → Text
  | .text markup => markup
  | .operand index => ((operands[index]?).map Prod.snd).getD []
  | .grouped index => ((operands[index]?).map fun (node, markup) => node.group markup).getD []

/-- The markup of a fixed layout. -/
def fillPieces (pieces : List Piece) (operands : List (Node × Text)) : Text :=
  pieces.flatMap (Piece.fill operands)

/-- How many operands a piece needs: those up to its own. -/
def Piece.needs : Piece → Nat
  | .text _ => 0
  | .operand index | .grouped index => index + 1

/-- How many operands pieces need: those up to the last one that has a place. -/
def operandCount (pieces : List Piece) : Nat :=
  pieces.foldr (fun piece most => max piece.needs most) 0

end Formulary
