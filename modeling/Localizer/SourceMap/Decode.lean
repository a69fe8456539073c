import Localizer.Json.Decode
import Localizer.Json.Double
import Localizer.Text.Basic
import Localizer.SourceMap.Basic
import Localizer.SourceMap.Vlq
/-!
# Decode — source maps from text

`SourceMap.decode` reads the text of a map.  A text that is no map, an index of several maps, and a map with a mapping
that points nowhere all count as unreadable.  The mappings are written as differences: the generated column starts again
on each line, the other four numbers run on through the whole map, and each is kept in 32 bits.
-/
namespace Localizer
namespace SourceMap

/-- **The text of a map after a line that guards it**: such a line starts with one of `)]}'` and runs up to the first
line feed.  A carriage return in it must stand before that line feed. -/
def dropGuard : List Char → Option (List Char)
  | [] => some []
  | '\n' :: cs => some ('\n' :: cs)
  | ['\r'] => some []
  | '\r' :: c :: cs => if c == '\n' then some (c :: cs) else none
  | _ :: cs => dropGuard cs

def unguarded (cs : List Char) : Option (List Char) :=
  match cs with
  | c :: _ => if c == ')' || c == ']' || c == '}' || c == '\'' then dropGuard cs else some cs
  | [] => some []

structure Running where
  source : Nat
  line : Nat
  column : Nat
  name : Nat
  deriving DecidableEq, Repr, Inhabited

/-- **A running number and a difference**, in 32 bits. -/
def advanced (n : Nat) (difference : Int) : Nat := ((n + difference) % (mapLimit : Int)).toNat

def segment (sources names : List String) (line column : Nat) (run : Running) :
    List Int → Option (Mapping × Running)
  | [dc] => some (⟨line, advanced column dc, none⟩, run)
  | [dc, ds, dl, dk] =>
    let run := { run with
      source := advanced run.source ds, line := advanced run.line dl, column := advanced run.column dk }
    (sources[run.source]?).map fun source =>
      (⟨line, advanced column dc, some ⟨source, run.line, run.column, none⟩⟩, run)
  | [dc, ds, dl, dk, dn] =>
    let run : Running :=
      ⟨advanced run.source ds, advanced run.line dl, advanced run.column dk, advanced run.name dn⟩
    match sources[run.source]?, names[run.name]? with
    | some source, some name => some (⟨line, advanced column dc, some ⟨source, run.line, run.column, some name⟩⟩, run)
    | _, _ => none
  | _ => none

def lineSegments (sources names : List String) (line : Nat) :
    Nat → Running → List (List Char) → Option (List Mapping × Running)
  | _, run, [] => some ([], run)
  | column, run, [] :: segments => lineSegments sources names line column run segments
  | column, run, text :: segments => do
    let numbers ← Vlq.decode text
    let (mapping, run) ← segment sources names line column run numbers
    let (rest, run) ← lineSegments sources names line mapping.column run segments
    return (mapping :: rest, run)

/-- **The mappings of all lines.**  Beside each line that has segments stands a piece that marks ranges; it must consist
of digits. -/
def allLines (sources names : List String) : Nat → Running → List (List Char) → List (List Char) → Option (List Mapping)
  | _, _, [], _ => some []
  | line, run, text :: lines, ranges =>
    if text.isEmpty then allLines sources names (line + 1) run lines ranges.tail
    else do
      if !(ranges.headD []).all (fun c => (Vlq.value? c).isSome) then none
      let (here, run) ← lineSegments sources names line 0 run (Text.pieces ',' text)
      let rest ← allLines sources names (line + 1) run lines ranges.tail
      return here ++ rest

def rooted (root source : List Char) : List Char :=
  let starts (s : String) : Bool := s.toList.isPrefixOf source
  if root.isEmpty || starts "/" || starts "http:" || starts "https:" then source
  else (if root.getLast? == some '/' then root.dropLast else root) ++ '/' :: source

/-- **A name in writing**: a number stands for its digits, anything else for nothing. -/
def nameText : Json → String
  | .string s => s
  | .number n => String.ofList n.text
  | _ => ""

def fileText : Json → String
  | .string s => s
  | _ => "<invalid>"

/-- **An identifier of a build**: 32 hexadecimal digits, with or without hyphens, perhaps with up to eight more, or nine
to sixteen digits. -/
def isBuildId (cs : List Char) : Bool :=
  let hex (l : List Char) : Bool := l.all fun c => (Text.hexValue? c).isSome
  let few (l : List Char) : Bool := hex l && Nat.ble 1 l.length && Nat.ble l.length 8
  match (Text.pieces '-' cs).map fun p => (p, p.length) with
  | [(p, n)] => hex p && (n == 32 || (Nat.ble 9 n && Nat.ble n 16) || few (p.drop 32))
  | [(a, 8), (b, 4), (c, 4), (d, 4), (e, 12)] => hex (a ++ b ++ c ++ d ++ e)
  | [(a, 8), (b, 4), (c, 4), (d, 4), (e, 12), (f, _)] => hex (a ++ b ++ c ++ d ++ e) && few f
  | _ => false

def buildId? (v : Json) : Option Unit :=
  match v with
  | .string s => if isBuildId s.toList then some () else none
  | _ => none

def memberNames : List String :=
  ["version", "file", "sources", "sourceRoot", "sourcesContent", "names", "mappings", "rangeMappings", "sections",
    "ignoreList", "debugId"]

def ofJson (v : Json) : Option SourceMap := do
  match ← Json.fields? memberNames v with
  | [version, file, sources, root, contents, names, mappings, ranges, sections, ignored, build] =>
    let _ ← Json.maybe? (Json.natBelow? mapLimit) version
    let file ← Json.maybe? some file
    let sources ← Json.maybe? (Json.list? (Json.nullable? Json.string?)) sources
    let root ← Json.maybe? Json.string? root
    let contents ← Json.maybe? (Json.list? (Json.nullable? Json.string?)) contents
    let names ← Json.maybe? (Json.list? some) names
    let mappings ← Json.maybe? Json.string? mappings
    let ranges ← Json.maybe? Json.string? ranges
    let _ ← Json.maybe? (Json.list? (Json.natBelow? mapLimit)) ignored
    let _ ← Json.maybe? buildId? build
    if (← Json.maybe? some sections).isSome then none
    let root := (root.getD "").toList
    let given := (sources.getD []).map fun s => s.getD ""
    let sources := given.map fun s => String.ofList (rooted root s.toList)
    let names := (names.getD []).map nameText
    let mappings ← allLines sources names 0 ⟨0, 0, 0, 0⟩
      (Text.pieces ';' (mappings.getD "").toList) (Text.pieces ';' (ranges.getD "").toList)
    let contents := (sources.zip (contents.getD [])).filterMap fun p => p.2.map (p.1, ·)
    return ⟨⟨file.map fileText, contents⟩, sortMappings mappings⟩
  | _ => none

def decode (text : String) : Option SourceMap := do
  ofJson (← Json.read (← unguarded text.toList))

end SourceMap
end Localizer
