import Localizer.Calls.Analysis
import Localizer.Edit.Apply
import Localizer.SourceMap.Decode
import Localizer.SourceMap.Encode
/-!
# Extraction — the messages of one script

A script with problems is left alone, and so is one that asks for nothing.  Otherwise its messages become a bundle, and
its patches are applied to its text, and to its source map if it has a readable one.
-/
namespace Localizer

inductive ExtractionError where
  | parse (failure : ParseFailure)
  | edit (error : EditError)
  deriving DecidableEq, Repr, Inhabited

def ExtractionError.message : ExtractionError → String
  | .parse failure => failure.message
  | .edit error => error.message

structure Extracted where
  contents : List Char
  sourceMap : Option String
  bundle : Bundle
  deriving DecidableEq, Repr, Inhabited

inductive Outcome where
  | unchanged
  | rejected (problems : List Calls.Problem)
  | extracted (result : Extracted)
  deriving DecidableEq, Repr, Inhabited

structure ExtractionOptions where
  /-- the script's path as load calls without arguments name it -/
  relative : Option (List Char)
  sourceMap : Option String
  moduleName : String
  deriving DecidableEq, Repr, Inhabited

def extract (file : String) (text : List Char) (options : ExtractionOptions) : Except ExtractionError Outcome :=
  match Script.parse file text with
  | .error failure => .error (.parse failure)
  | .ok script =>
    let analysis := Calls.analyze script options.relative options.moduleName
    if !analysis.problems.isEmpty then .ok (.rejected analysis.problems)
    else if analysis.patches.isEmpty then .ok .unchanged
    else
      match (Document.ofText text (options.sourceMap.bind SourceMap.decode)).apply analysis.patches with
      | .error error => .error (.edit error)
      | .ok document => .ok (.extracted ⟨document.text, document.sourceMap.map SourceMap.encode, analysis.bundle⟩)

end Localizer
