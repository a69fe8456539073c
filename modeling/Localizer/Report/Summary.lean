import Localizer.Report.Render
/-!
# Summary — what a command did, and with what success
-/
namespace Localizer

inductive Summary where
  /-- scripts looked at, scripts patched, messages found, and the manifest written -/
  | process (scanned patched messages : Nat) (bundleId : Option String)
  | translate (bundles languages written : Nat)
  | init
  deriving DecidableEq, Repr, Inhabited

structure CommandResult where
  summary : Summary
  diagnostics : List Diagnostic
  /-- whether errors make the command fail -/
  exitOnErrors : Bool
  deriving DecidableEq, Repr, Inhabited

inductive ExitStatus where
  | success
  | failure
  | error
  deriving DecidableEq, Repr, Inhabited

def ExitStatus.code : ExitStatus → Nat
  | .success => 0
  | .failure => 1
  | .error => 2

namespace CommandResult

def ofDiagnostics (summary : Summary) (ds : List Diagnostic) : CommandResult := ⟨summary, Diagnostic.sort ds, true⟩

def errorCount (r : CommandResult) : Nat := Diagnostic.errorCount r.diagnostics

def status (r : CommandResult) : ExitStatus :=
  if r.exitOnErrors && 0 < r.errorCount then .failure else .success

end CommandResult

namespace Report

def plural (count : Nat) (word : String) : String :=
  toString count ++ " " ++ word ++ (if count == 1 then "" else "s")

def summary (colour : Bool) (r : CommandResult) : String :=
  let success := painted colour .green successMark
  match r.summary with
  | .process scanned patched messages bundleId =>
    (if r.errorCount == 0 then success else painted colour .red failureMark) ++ " Rewrote " ++ plural patched "file" ++
      " of " ++ toString scanned ++ " (" ++ plural messages "message" ++ ")\n" ++
      match bundleId with
      | some id => success ++ " " ++ painted colour .green ("Wrote metadata bundle " ++ id) ++ "\n"
      | none => ""
  | .translate bundles languages written =>
    success ++ " Wrote " ++ plural written "file" ++ " for " ++ plural bundles "bundle" ++ " and " ++
      plural languages "language" ++ "\n"
  | .init => success ++ " " ++ painted colour .green "Created .nlsrc.json" ++ "\n"

def result (colour : Bool) (r : CommandResult) : String := diagnostics colour r.diagnostics ++ summary colour r

end Report
end Localizer
