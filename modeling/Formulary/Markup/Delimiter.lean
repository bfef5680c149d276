import Formulary.Settings
import Formulary.Text.Lead

/-!
# Sized delimiters

Parentheses around a fraction grow with it. A *group* is a balanced stretch from a bare
parenthesis to the one that closes it; it is *sized* when it is outermost and mentions `frac`.
`Delimiter.size` leaves everything outside sized groups alone and, inside them, puts

* `\left` before every bare `(` that does not follow `\left` yet;
* `\right` before the `)` of each pair opened that way, unless it follows `\right`;
* `\left` and `\right` before the pipes that `PipeSizing` selects.

`chunks` finds the groups, `pipeDepths` lists the pipes that may be sized, `pipeSides` gives each
of them its side, and `resize` writes the group.
-/

namespace Formulary.Delimiter

/-- The control words whose argument is a delimiter. A pipe behind one of them has its size. -/
def sizingCommands : List Text :=
  ["left".toList, "right".toList, "middle".toList, "big".toList, "Big".toList, "bigg".toList,
   "Bigg".toList, "bigl".toList, "bigr".toList, "bigm".toList, "Bigl".toList, "Bigr".toList,
   "Bigm".toList, "biggl".toList, "biggr".toList, "biggm".toList, "Biggl".toList,
   "Biggr".toList, "Biggm".toList]

/-- The mark directly follows the control word `name`. -/
def follows (mark : Mark) (name : Text) : Bool := mark.lead = .word name

/-- A bare pipe without a size of its own. -/
def isLoosePipe (mark : Mark) : Bool :=
  mark.isBare '|' && !sizingCommands.any (follows mark)

/-! ## Groups -/

/-- A stretch of marks: a balanced outermost group, or text between groups. -/
inductive Chunk where
  | loose (marked : List Mark)
  | group (marked : List Mark)
  deriving DecidableEq, Repr, Inhabited

/-- Cut marks into groups and the text between them. `depth` counts the parentheses that are
open and `held` holds the stretch read since the last cut, the latest mark first. A parenthesis
that is never closed opens no group, and neither does anything behind it. -/
def chunksFrom : Nat → List Mark → List Mark → List Chunk
  | _, held, [] => [.loose held.reverse]
  | 0, held, mark :: rest =>
    if mark.isBare '(' then .loose held.reverse :: chunksFrom 1 [mark] rest
    else chunksFrom 0 (mark :: held) rest
  | depth + 1, held, mark :: rest =>
    if mark.isBare '(' then chunksFrom (depth + 2) (mark :: held) rest
    else if mark.isBare ')' then
      if depth = 0 then .group (mark :: held).reverse :: chunksFrom 0 [] rest
      else chunksFrom depth (mark :: held) rest
    else chunksFrom (depth + 1) (mark :: held) rest

/-- The groups of a text and what stands between them, in order. -/
def chunks (text : Text) : List Chunk := chunksFrom 0 [] (marks text)

/-- A group around a fraction. -/
def hasFraction (marked : List Mark) : Bool := Text.mentions "frac".toList (plainText marked)

/-! ## Pipes -/

/-- The side of a pair that a delimiter takes. -/
inductive Side where
  | left
  | right
  deriving DecidableEq, Repr, Inhabited

/-- The control word that sizes a delimiter on this side. -/
def Side.command : Side → Text
  | .left => "\\left".toList
  | .right => "\\right".toList

/-- The parenthesis depth of every loose pipe, in order. -/
def pipeDepths : Nat → List Mark → List Nat
  | _, [] => []
  | depth, mark :: rest =>
    if mark.isBare '(' then pipeDepths (depth + 1) rest
    else if mark.isBare ')' then pipeDepths (depth - 1) rest
    else if isLoosePipe mark then depth :: pipeDepths depth rest
    else pipeDepths depth rest

/-- Sides by depth: the pipes of one depth alternate when they are even in number, and have no
side otherwise. The first argument lists the depths of the pipes already passed. -/
def scopedSides (all : List Nat) : List Nat → List Nat → List (Option Side)
  | _, [] => []
  | passed, depth :: rest =>
    (if all.count depth % 2 = 0 then
      some (if passed.count depth % 2 = 0 then .left else .right)
    else none) :: scopedSides all (depth :: passed) rest

/-- Sides for the first pair only; `passed` pipes stand in earlier groups. -/
def firstPairSides (passed count : Nat) : List (Option Side) :=
  (List.range' passed count).map fun
    | 0 => some .left
    | 1 => some .right
    | _ => none

/-- The side of every loose pipe of a group, given its depths and the number of loose pipes in
the groups before it. -/
def pipeSides (pipes : PipeSizing) (passed : Nat) (depths : List Nat) : List (Option Side) :=
  match pipes with
  | .scoped => scopedSides depths [] depths
  | .firstPair => firstPairSides passed depths.length
  | .off => depths.map fun _ => none

/-! ## Writing a group -/

/-- Put the sizing command of a side before a character. -/
def sized (side : Side) (c : Char) : Text := side.command ++ [c]

/-- Write a group. `opened` remembers, for every open parenthesis, whether it was sized here;
`sides` are the sides of the loose pipes still to come. -/
def resize : List Bool → List (Option Side) → List Mark → Text
  | _, _, [] => []
  | opened, sides, mark :: rest =>
    if mark.isBare '(' then
      let fresh := !follows mark "left".toList
      (if fresh then sized .left '(' else ['(']) ++ resize (fresh :: opened) sides rest
    else if mark.isBare ')' then
      let closes := opened.head?.getD false && !follows mark "right".toList
      (if closes then sized .right ')' else [')']) ++ resize opened.tail sides rest
    else if isLoosePipe mark then
      (match sides.head?.getD none with
        | some side => sized side '|'
        | none => ['|']) ++ resize opened sides.tail rest
    else mark.char :: resize opened sides rest

/-- Write a list of chunks; `passed` loose pipes stand in the sized groups before them. -/
def sizeChunks (pipes : PipeSizing) : Nat → List Chunk → Text
  | _, [] => []
  | passed, .loose marked :: rest => plainText marked ++ sizeChunks pipes passed rest
  | passed, .group marked :: rest =>
    if hasFraction marked then
      let depths := pipeDepths 0 marked
      resize [] (pipeSides pipes passed depths) marked ++
        sizeChunks pipes (passed + depths.length) rest
    else plainText marked ++ sizeChunks pipes passed rest

/-- Size the delimiters of every outermost group around a fraction. -/
def size (pipes : PipeSizing) (text : Text) : Text := sizeChunks pipes 0 (chunks text)

end Formulary.Delimiter
