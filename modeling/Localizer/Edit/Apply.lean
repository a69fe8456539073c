import Localizer.Edit.Document
/-!
# Apply — several patches at once

`Document.apply` refuses a set of patches if one ends before it starts, if two overlap or touch, or if the last one ends
outside the text; a refused set changes nothing.  Otherwise it makes the edits from the last to the first, so that no
edit moves the places of those still to come.
-/
namespace Localizer

open Text (Position Region Ending unitLength takeUnits dropUnits)

inductive EditError where
  | reversed (region : Region)
  | overlapping (first second : Region)
  | outside (stop : Position) (lineCount : Nat)
  deriving DecidableEq, Repr, Inhabited

def EditError.message : EditError → String
  | .reversed r => "edit ends at " ++ r.stop.shown ++ " before it starts at " ++ r.start.shown
  | .overlapping first second => "overlapping edits: " ++ first.shown ++ " overlaps " ++ second.shown
  | .outside stop n => "edit ending at " ++ stop.shown ++ " is outside of the document (" ++ toString n ++ " lines)"

/-- **How far the marks of a line have been walked**, from the last to the first: those from `left` on are done. -/
structure MarkWalk where
  line : Option Nat
  left : Nat
  deriving DecidableEq, Repr, Inhabited

/-- **Walk back to a column**: `before` are the marks still to walk, nearest first, and `after` those done.  A walked
mark before `stop` is deleted. -/
def walkMarks (start stop : Nat) : (before after : List Mark) → List Mark × List Mark
  | [], after => ([], after)
  | m :: before, after =>
    if m.column ≤ start then (m :: before, after)
    else walkMarks start stop before ((if m.column < stop then m.delete else m) :: after)

def DocumentLine.shiftFrom (l : DocumentLine) (before after : List Mark) (lines columns : Int) : DocumentLine :=
  match after with
  | m :: rest => { l with marks := before ++ m.shift lines columns :: rest }
  | [] => { l with marks := before }.shift lines columns

def deleteFrom (column : Nat) (marks : List Mark) : List Mark :=
  let late := (marks.reverse.takeWhile fun m => Nat.ble column m.column).reverse
  marks.take (marks.length - late.length) ++ late.map Mark.delete

namespace Document

def splice (lines : List DocumentLine) (p : Patch) : List DocumentLine :=
  let start := p.region.start
  let stop := p.region.stop
  let stopLine := (lines[stop.line]?).getD default
  let suffix := dropUnits stopLine.contentOrEmpty stop.character
  lines.mapIdx fun i l =>
    if i = start.line then
      { l with
        content := some (takeUnits l.contentOrEmpty start.character ++ p.content ++ suffix)
        ending := if start.line < stop.line then stopLine.ending else l.ending }
    else if start.line < i && i < stop.line then { l with content := none }
    else if start.line < i && i = stop.line then { l with content := none, ending := .nothing }
    else l

/-- **Move the marks after a patch within one line.**  Shifts are exact differences: columns are taken to be below `2 ^ 63`,
so that a machine word holds them. -/
def shiftWithin (lines : List DocumentLine) (p : Patch) (walk : MarkWalk) : List DocumentLine × MarkWalk :=
  let start := p.region.start
  let stop := p.region.stop
  let l := (lines[start.line]?).getD default
  let left := if walk.line == some start.line then walk.left else l.marks.length
  let (before, after) := walkMarks start.character stop.character (l.marks.take left).reverse (l.marks.drop left)
  let columns : Int := (unitLength p.content : Int) - ((stop.character : Int) - (start.character : Int))
  (lines.set start.line (l.shiftFrom before.reverse after 0 columns), ⟨some start.line, before.length⟩)

/-- **Move the marks after a patch over several lines**, by exact differences of lines and columns below `2 ^ 63`. -/
def shiftAcross (lines : List DocumentLine) (p : Patch) : List DocumentLine :=
  let start := p.region.start
  let stop := p.region.stop
  lines.mapIdx fun i l =>
    if i = start.line then { l with marks := deleteFrom start.character l.marks }
    else if start.line < i && i < stop.line then { l with marks := l.marks.map Mark.delete }
    else if i = stop.line then
      let gone := l.marks.takeWhile fun m => Nat.blt m.column stop.character
      let kept := l.marks.dropWhile fun m => Nat.blt m.column stop.character
      l.shiftFrom (gone.map Mark.delete) kept ((start.line : Int) - (stop.line : Int))
        ((start.character : Int) - (stop.character : Int) + (unitLength p.content : Int))
    else l

def edit (mapped : Bool) (lines : List DocumentLine) (walk : MarkWalk) (p : Patch) : List DocumentLine × MarkWalk :=
  let lines := splice lines p
  if !mapped then (lines, walk)
  else if p.region.isSingleLine then shiftWithin lines p walk
  else (shiftAcross lines p, { walk with line := none })

def edits (mapped : Bool) : List DocumentLine → MarkWalk → List Patch → List DocumentLine
  | lines, _, [] => lines
  | lines, walk, p :: ps =>
    let (lines, walk) := edit mapped lines walk p
    edits mapped lines walk ps

def sortPatches (ps : List Patch) : List Patch := ps.mergeSort fun a b => a.region.start.upTo b.region.start

/-- **The first two neighbours that overlap or touch.** -/
def overlap? : List Patch → Option (Region × Region)
  | p :: q :: ps => if q.region.start.upTo p.region.stop then some (p.region, q.region) else overlap? (q :: ps)
  | _ => none

def holds (d : Document) (p : Position) : Bool :=
  match (d.lines[p.line]?).bind (·.content) with
  | some content => Nat.ble p.character (unitLength content)
  | none => false

def refusal? (d : Document) (sorted : List Patch) : Option EditError :=
  match sorted.find? fun p => p.region.stop.before p.region.start with
  | some p => some (.reversed p.region)
  | none =>
    match overlap? sorted with
    | some (first, second) => some (.overlapping first second)
    | none =>
      match sorted.getLast? with
      | some p => if d.holds p.region.stop then none else some (.outside p.region.stop d.lines.length)
      | none => none

/-- **Apply patches**, all or none. -/
def apply (d : Document) (patches : List Patch) : Except EditError Document :=
  let sorted := sortPatches patches
  match d.refusal? sorted with
  | some e => .error e
  | none => .ok { d with lines := edits d.header.isSome d.lines ⟨none, 0⟩ sorted.reverse }

end Document
end Localizer
