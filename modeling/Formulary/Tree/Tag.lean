import Formulary.Text.Basic

/-!
# Tags

The kinds of node that have a layout of their own, each with the name it has in a response. A tag
knows the least number of children that its layout reads (`Tag.arity`), whether it takes any number
of them (`Tag.isVariadic`), whether it writes the node's own value (`Tag.needsValue`), and whether
its markup needs parentheses as the operand of an operator such as `sin` (`Tag.isLoose`).
-/

namespace Formulary

/-- The kinds of node that have a layout. -/
inductive Tag where
  -- Literals
  | words | template | variable | unit | indexed | constant | repeating
  -- Arithmetic
  | negative | positive | equals | sum | difference | ratio | product | juxtaposition
  | sumOrDifference | plusMinus | fraction | mixedFraction | power | factorial | percentage
  | bracket | squareRoot | root | logarithm | naturalLogarithm | absolute
  -- Relations
  | notEquals | approximates | approximateSign | greater | less | greaterOrEqual | lessOrEqual
  -- Lists
  | commaList | alternatives | column
  -- Angles and trigonometry
  | degrees | degreesMinutes | degreesMinutesSeconds | sine | cosine | tangent | cotangent
  | arcsine | arccosine | arctangent | arccotangent | secant | cosecant
  -- Sets and intervals
  | member | nonMember | union | openInterval | closedOpenInterval | openClosedInterval
  | closedInterval | set | tuple | condition | conditionList
  -- Systems and applications
  | system | application | inverseApplication
  -- Calculus
  | derivative | prime | doublePrime | nthPrime | setDifference | derivativeQuotient
  | partialDerivative | partialQuotient | limit | finiteSum | integral | definiteIntegral
  | differential | evaluationBar
  -- Blanks and combinations
  | blankBox | boxLess | boxGreater | boxEquals | functionProduct | composition | piecewise
  deriving DecidableEq, Repr, Inhabited

namespace Tag

/-- Every tag. -/
def all : List Tag := [
  .words, .template, .variable, .unit, .indexed, .constant, .repeating, .negative, .positive,
  .equals, .sum, .difference, .ratio, .product, .juxtaposition, .sumOrDifference, .plusMinus,
  .fraction, .mixedFraction, .power, .factorial, .percentage, .bracket, .squareRoot, .root,
  .logarithm, .naturalLogarithm, .absolute, .notEquals, .approximates, .approximateSign, .greater,
  .less, .greaterOrEqual, .lessOrEqual, .commaList, .alternatives, .column, .degrees,
  .degreesMinutes, .degreesMinutesSeconds, .sine, .cosine, .tangent, .cotangent, .arcsine,
  .arccosine, .arctangent, .arccotangent, .secant, .cosecant, .member, .nonMember, .union,
  .openInterval, .closedOpenInterval, .openClosedInterval, .closedInterval, .set, .tuple,
  .condition, .conditionList, .system, .application, .inverseApplication, .derivative, .prime,
  .doublePrime, .nthPrime, .setDifference, .derivativeQuotient, .partialDerivative,
  .partialQuotient, .limit, .finiteSum, .integral, .definiteIntegral, .differential,
  .evaluationBar, .blankBox, .boxLess, .boxGreater, .boxEquals, .functionProduct, .composition,
  .piecewise]

/-- The name of a tag in a response. -/
def name : Tag → Text
  | .words => "string".toList
  | .template => "localized_text".toList
  | .variable => "var".toList
  | .unit => "unit".toList
  | .indexed => "indexed".toList
  | .constant => "const".toList
  | .repeating => "periodic_localize".toList
  | .negative => "negative".toList
  | .positive => "positive".toList
  | .equals => "equals".toList
  | .sum => "add".toList
  | .difference => "sub".toList
  | .ratio => "div".toList
  | .product => "mul".toList
  | .juxtaposition => "muli".toList
  | .sumOrDifference => "add_sub".toList
  | .plusMinus => "add_sub_sign".toList
  | .fraction => "frac".toList
  | .mixedFraction => "mixedfrac".toList
  | .power => "pow".toList
  | .factorial => "factorial".toList
  | .percentage => "percentage".toList
  | .bracket => "bracket".toList
  | .squareRoot => "root2".toList
  | .root => "root".toList
  | .logarithm => "log".toList
  | .naturalLogarithm => "ln".toList
  | .absolute => "abs".toList
  | .notEquals => "not_equals".toList
  | .approximates => "approx".toList
  | .approximateSign => "approx_sign".toList
  | .greater => "gt".toList
  | .less => "lt".toList
  | .greaterOrEqual => "gte".toList
  | .lessOrEqual => "lte".toList
  | .commaList => "list".toList
  | .alternatives => "alt_form".toList
  | .column => "vert_list".toList
  | .degrees => "deg".toList
  | .degreesMinutes => "degmin".toList
  | .degreesMinutesSeconds => "degminsecond".toList
  | .sine => "sin".toList
  | .cosine => "cos".toList
  | .tangent => "tan".toList
  | .cotangent => "cot".toList
  | .arcsine => "asin".toList
  | .arccosine => "acos".toList
  | .arctangent => "atan".toList
  | .arccotangent => "acot".toList
  | .secant => "sec".toList
  | .cosecant => "csc".toList
  | .member => "elem_of".toList
  | .nonMember => "elem_not_of".toList
  | .union => "union".toList
  | .openInterval => "ooint".toList
  | .closedOpenInterval => "coint".toList
  | .openClosedInterval => "ocint".toList
  | .closedInterval => "ccint".toList
  | .set => "set".toList
  | .tuple => "order".toList
  | .condition => "cond_def".toList
  | .conditionList => "cond_expr".toList
  | .system => "system".toList
  | .application => "function".toList
  | .inverseApplication => "function_inverse".toList
  | .derivative => "derivation".toList
  | .prime => "derivationprime".toList
  | .doublePrime => "derivationprime2".toList
  | .nthPrime => "nderivationprime".toList
  | .setDifference => "diff".toList
  | .derivativeQuotient => "derivation_diff".toList
  | .partialDerivative => "partial_derivation".toList
  | .partialQuotient => "partial_derivation_diff".toList
  | .limit => "lim".toList
  | .finiteSum => "definitesigma".toList
  | .integral => "integral".toList
  | .definiteIntegral => "definiteintegral".toList
  | .differential => "differential".toList
  | .evaluationBar => "integralrightdash".toList
  | .blankBox => "blank_box_op".toList
  | .boxLess => "filled_box_lt".toList
  | .boxGreater => "filled_box_gt".toList
  | .boxEquals => "filled_box_equals".toList
  | .functionProduct => "function_operation".toList
  | .composition => "composition".toList
  | .piecewise => "piecewise_def".toList

/-- The tag with a name. -/
def ofName? (name : Text) : Option Tag := all.find? fun tag => tag.name = name

/-- The least number of children that a node with this tag has. -/
def arity : Tag → Nat
  | .words | .variable | .unit | .constant | .commaList | .alternatives | .column | .set | .tuple
  | .system | .piecewise => 0
  | .negative | .positive | .plusMinus | .factorial | .percentage | .bracket | .squareRoot
  | .naturalLogarithm | .absolute | .approximateSign | .degrees | .sine | .cosine | .tangent
  | .cotangent | .arcsine | .arccosine | .arctangent | .arccotangent | .secant | .cosecant
  | .prime | .doublePrime | .differential => 1
  | .template | .mixedFraction | .degreesMinutesSeconds | .limit | .evaluationBar => 3
  | .finiteSum | .definiteIntegral => 4
  | _ => 2

/-- A tag that lays out all children of a node, however many there are. -/
def isVariadic : Tag → Bool
  | .commaList | .alternatives | .column | .set | .tuple | .system | .piecewise => true
  | _ => false

/-- A tag whose layout is the node's own value. -/
def needsValue : Tag → Bool
  | .words | .variable | .unit | .constant => true
  | _ => false

/-- A tag whose markup falls apart as the operand of an operator without parentheses. -/
def isLoose : Tag → Bool
  | .negative | .sum | .difference | .ratio | .product => true
  | _ => false

/-- The number of children that the layout reads, of those that a node has. -/
def reads (tag : Tag) (children : Nat) : Nat := if tag.isVariadic then children else tag.arity

end Tag

end Formulary
