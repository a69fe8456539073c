import Localizer.Text.Width
import Localizer.Report.Diagnostic
/-!
# Render — messages as text for a terminal

Each message shows its severity, where it is, and the line there with a caret under the place.  Line numbers are aligned
over all messages, and the caret stands under the column where the line's text before the place ends on a terminal.
-/
namespace Localizer
namespace Report

open Text (Position)

inductive Paint where
  | boldRed
  | boldYellow
  | red
  | yellow
  | green
  | blue
  deriving DecidableEq, Repr, Inhabited

def Paint.code : Paint → String
  | .boldRed => "1;31"
  | .boldYellow => "1;33"
  | .red => "31"
  | .yellow => "33"
  | .green => "32"
  | .blue => "34"

def painted (colour : Bool) (paint : Paint) (text : String) : String :=
  if colour then "\x1b[" ++ paint.code ++ "m" ++ text ++ "\x1b[0m" else text

def blanks (n : Nat) : String := String.ofList (List.replicate n ' ')

def rightAligned (width : Nat) (text : String) : String := blanks (width - text.length) ++ text

def gutter (colour : Bool) (width : Nat) (number : Option Nat) : String :=
  (match number with
    | some n => painted colour .blue (rightAligned width (toString n))
    | none => blanks width) ++ " " ++ painted colour .blue "|"

def excerpt (colour : Bool) (width : Nat) (d : Diagnostic) (p : Position) (line : List Char) : String :=
  let caret := painted colour (if d.isError then .red else .yellow) "^"
  let column := Text.displayWidth (Text.takeUnits line p.character)
  gutter colour width none ++ "\n" ++
    gutter colour width (some (p.line + 1)) ++ " " ++ String.ofList line ++ "\n" ++
    gutter colour width none ++ " " ++ blanks column ++ caret ++ "\n"

def diagnostic (colour : Bool) (width : Nat) (d : Diagnostic) : String :=
  let severity :=
    if d.isError then painted colour .boldRed "error" else painted colour .boldYellow "warning"
  let place := match d.position with
    | some p => d.file ++ ":" ++ p.shown
    | none => d.file
  let shown := match d.position, d.sourceLine with
    | some p, some line => excerpt colour width d p line
    | _, _ => ""
  severity ++ ": " ++ d.message ++ "\n  " ++ painted colour .blue "-->" ++ " " ++ place ++ "\n" ++ shown ++ "\n"

def numberWidth (ds : List Diagnostic) : Nat :=
  match ds.filterMap (·.position) with
  | [] => 1
  | ps => ps.foldl (fun width p => Nat.max width (toString (p.line + 1)).length) 0

def successMark : String := "✓"

def failureMark : String := "✘"

def total (colour : Bool) (ds : List Diagnostic) : String :=
  let errors := Diagnostic.errorCount ds
  let warnings := Diagnostic.warningCount ds
  painted colour .red failureMark ++ " " ++ toString ds.length ++ " problems (" ++ toString errors ++ " " ++
    painted colour .red (if errors == 1 then "error" else "errors") ++ ", " ++ toString warnings ++ " " ++
    painted colour .yellow (if warnings == 1 then "warning" else "warnings") ++ ")\n"

/-- **All messages and their count**; nothing if there are none. -/
def diagnostics (colour : Bool) (ds : List Diagnostic) : String :=
  if ds.isEmpty then ""
  else String.join (ds.map (diagnostic colour (numberWidth ds))) ++ total colour ds

end Report
end Localizer
