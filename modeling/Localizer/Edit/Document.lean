import Localizer.Text.Position
import Localizer.SourceMap.Basic
/-!
# Document — a text by lines, with the mappings of its source map

A document keeps its lines in place: an edit over several lines joins them into the first one and leaves the others
without content.  Each line carries the marks of the map's mappings that were on it.  A mark keeps the place it had in
the unedited text; how far the edits moved it is written down as shifts, each on the first mark after an edit (or on the
line, if no mark follows), and a shift counts for everything after it.
-/
namespace Localizer

open Text (Region Ending unitLength)

structure Patch where
  region : Region
  content : List Char
  deriving DecidableEq, Repr, Inhabited

/-- **A mapping of the unedited text and what the edits did to it.** -/
structure Mark where
  mapping : Mapping
  /-- it was inside replaced text -/
  deleted : Bool
  lineShift : Int
  columnShift : Int
  deriving DecidableEq, Repr, Inhabited

def Mark.ofMapping (m : Mapping) : Mark := ⟨m, false, 0, 0⟩

def Mark.column (m : Mark) : Nat := m.mapping.column

def Mark.delete (m : Mark) : Mark := { m with deleted := true }

def Mark.shift (m : Mark) (lines columns : Int) : Mark :=
  { m with lineShift := m.lineShift + lines, columnShift := m.columnShift + columns }

structure DocumentLine where
  /-- none once an edit has joined the line to one before it -/
  content : Option (List Char)
  ending : Ending
  /-- by column -/
  marks : List Mark
  /-- shifts with no mark after them on this line -/
  lineShift : Int
  columnShift : Int
  deriving DecidableEq, Repr, Inhabited

def DocumentLine.contentOrEmpty (l : DocumentLine) : List Char := l.content.getD []

def DocumentLine.text (l : DocumentLine) : List Char :=
  match l.content with
  | some content => content ++ l.ending.text
  | none => []

def DocumentLine.shift (l : DocumentLine) (lines columns : Int) : DocumentLine :=
  { l with lineShift := l.lineShift + lines, columnShift := l.columnShift + columns }

structure Document where
  lines : List DocumentLine
  header : Option MapHeader
  deriving DecidableEq, Repr, Inhabited

namespace Document

def marksOn (line : Nat) (ms : List Mapping) : List Mark :=
  ((ms.filter fun m => m.line == line).mergeSort fun a b => Nat.ble a.column b.column).map Mark.ofMapping

/-- **The document of a text.**  Mappings past its last line are dropped. -/
def ofText (text : List Char) (map : Option SourceMap) : Document where
  lines := (Text.splitLines text).mapIdx fun i l =>
    ⟨some l.content, l.ending, marksOn i ((map.map (·.mappings)).getD []), 0, 0⟩
  header := map.map (·.header)

def text (d : Document) : List Char := d.lines.flatMap DocumentLine.text

/-- **The mapping of a mark after shifts**, unless it is deleted or would leave the range of a map. -/
def moved? (m : Mark) (lines columns : Int) : Option Mapping :=
  if m.deleted then none
  else
    let line := (m.mapping.line : Int) + lines
    let column := (m.mapping.column : Int) + columns
    if 0 ≤ line && line < mapLimit && 0 ≤ column && column < mapLimit then
      some { m.mapping with line := line.toNat, column := column.toNat }
    else none

def sweepMarks : Int → Int → List Mark → List Mapping × Int × Int
  | lines, columns, [] => ([], lines, columns)
  | lines, columns, m :: ms =>
    let lines := lines + m.lineShift
    let columns := columns + m.columnShift
    let (rest, final) := sweepMarks lines columns ms
    ((moved? m lines columns).toList ++ rest, final)

/-- **The mappings of lines**, after shifts.  A line with content starts at column zero; one without goes on where the
line before it ends. -/
def sweepLines : Int → Int → List DocumentLine → List Mapping
  | _, _, [] => []
  | lines, columns, l :: ls =>
    let (here, lines, columns) := sweepMarks lines (if l.content.isSome then 0 else columns) l.marks
    here ++ sweepLines (lines + l.lineShift) (columns + l.columnShift) ls

def sourceMap (d : Document) : Option SourceMap :=
  d.header.map fun header => ⟨header, sortMappings (sweepLines 0 0 d.lines)⟩

end Document
end Localizer
