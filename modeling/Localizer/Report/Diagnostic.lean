import Localizer.Text.Basic
import Localizer.Text.Position
/-!
# Diagnostic — something to tell about a file
-/
namespace Localizer

open Text (Position)

inductive Severity where
  | error
  | warning
  deriving DecidableEq, Repr, Inhabited

structure Diagnostic where
  severity : Severity
  file : String
  position : Option Position
  message : String
  sourceLine : Option (List Char)
  deriving DecidableEq, Repr, Inhabited

namespace Diagnostic

def ofFile (severity : Severity) (file message : String) : Diagnostic := ⟨severity, file, none, message, none⟩

def isError (d : Diagnostic) : Bool := d.severity == .error

def placeUpTo : Option Position → Option Position → Bool
  | none, _ => true
  | some _, none => false
  | some a, some b => a.upTo b

/-- **Order of messages**: by file, then place, then errors before warnings. -/
def upTo (a b : Diagnostic) : Bool :=
  if a.file == b.file then
    if a.position == b.position then a.isError || !b.isError
    else placeUpTo a.position b.position
  else Text.textBefore a.file b.file

def sort (ds : List Diagnostic) : List Diagnostic := ds.mergeSort upTo

def errorCount (ds : List Diagnostic) : Nat := (ds.filter isError).length

def warningCount (ds : List Diagnostic) : Nat := ds.length - errorCount ds

end Diagnostic
end Localizer
