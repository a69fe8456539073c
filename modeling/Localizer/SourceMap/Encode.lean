import Localizer.Json.Printer
import Localizer.SourceMap.Basic
import Localizer.SourceMap.Vlq
/-!
# Encode — source maps as text

Sources and names are numbered by their first use.  A mapping is written as the differences of its numbers to those
before it; one that says the same as the mapping just before it on its line is left out.
-/
namespace Localizer
namespace SourceMap

abbrev Numbering := List String

/-- **A numbering that has a text**: a new one comes last. -/
def Numbering.add (table : Numbering) (text : String) : Numbering :=
  if table.contains text then table else table ++ [text]

def Numbering.number (table : Numbering) (text : String) : Nat := table.idxOf text

def Numbering.addAll (table : Numbering) (texts : List String) : Numbering := texts.foldl Numbering.add table

def usedSources (ms : List Mapping) : Numbering :=
  Numbering.addAll [] (ms.filterMap fun m => m.origin.map (·.source))

def usedNames (ms : List Mapping) : Numbering :=
  Numbering.addAll [] (ms.filterMap fun m => m.origin.bind (·.name))

/-- **The numbers that the next differences count from.** -/
structure Written where
  line : Nat
  column : Nat
  source : Nat
  originLine : Nat
  originColumn : Nat
  name : Nat
  deriving DecidableEq, Repr, Inhabited

def difference (now before : Nat) : List Char := Vlq.encode ((now : Int) - (before : Int))

def segmentText (sources names : Numbering) (w : Written) (m : Mapping) : List Char × Written :=
  let column := difference m.column w.column
  match m.origin with
  | none => (column, { w with line := m.line, column := m.column })
  | some o =>
    let source := sources.number o.source
    let place := column ++ difference source w.source ++ difference o.line w.originLine ++
      difference o.column w.originColumn
    match o.name with
    | none => (place, ⟨m.line, m.column, source, o.line, o.column, w.name⟩)
    | some n =>
      let name := names.number n
      (place ++ difference name w.name, ⟨m.line, m.column, source, o.line, o.column, name⟩)

def mappingsText (sources names : Numbering) : Written → Option Mapping → List Mapping → List Char
  | _, _, [] => []
  | w, previous, m :: ms =>
    if m.line != w.line then
      let (text, next) := segmentText sources names { w with column := 0 } m
      List.replicate (m.line - w.line) ';' ++ text ++ mappingsText sources names next (some m) ms
    else if previous == some m then mappingsText sources names w previous ms
    else
      let (text, next) := segmentText sources names w m
      (if previous.isSome then [','] else []) ++ text ++ mappingsText sources names next (some m) ms

/-- **All sources of a map**: those of its mappings, then those with contents. -/
def allSources (h : MapHeader) (ms : List Mapping) : Numbering :=
  (usedSources ms).addAll (h.contents.map (·.1))

/-- **The contents of a source**: the last ones given. -/
def contentsOf (h : MapHeader) (source : String) : Option String :=
  (h.contents.findRev? fun c => c.1 == source).map (·.2)

def toJson (map : SourceMap) : Json :=
  let ms := sortMappings map.mappings
  let sources := allSources map.header ms
  let names := usedNames ms
  .object (
    [("version", Json.ofNat 3)] ++
    (map.header.file.map fun f => ("file", Json.string f)).toList ++
    [("sources", Json.ofStrings sources)] ++
    (if map.header.contents.isEmpty then []
      else [("sourcesContent", .array (sources.map fun s => Json.ofOption (contentsOf map.header s)))]) ++
    [("names", Json.ofStrings names),
      ("mappings", .string (String.ofList (mappingsText sources names ⟨0, 0, 0, 0, 0, 0⟩ none ms)))])

def encode (map : SourceMap) : String := (toJson map).compact

end SourceMap
end Localizer
