import Localizer.Bundle.Manifest
import Localizer.Commands.Arguments
import Localizer.Commands.Context
/-!
# Process — extract the messages of a folder's scripts

Each script is read with the source map beside it.  A script that is patched goes to its place in the output folder with
its map and with two files of messages; one that is not is copied there, unless it is there already because scripts are
patched in place.  A script that fails is told about and does not stop the others.
-/
namespace Localizer
namespace Process

structure Settings where
  root : String
  outputRoot : String
  base : String
  moduleName : String
  relativePaths : Bool
  deriving DecidableEq, Repr, Inhabited

def Settings.inPlace (s : Settings) : Bool := Path.components s.outputRoot == Path.components s.root

structure FileOutcome where
  diagnostics : List Diagnostic
  bundle : Option BundleFile
  deriving DecidableEq, Repr, Inhabited

/-- **Something to do on the disk**, and how its failure is told. -/
inductive Step where
  | folder (path : String)
  | mainFile (path : String) (text : List Char)
  | sideFile (path : String) (text : List Char)
  deriving DecidableEq, Repr, Inhabited

def writeSteps (target : String) (text : List Char) : List Step :=
  ((Path.parent? target).map Step.folder).toList ++ [.mainFile target text]

def copySteps (s : Settings) (target : String) (text : List Char) (map : Option (List Char)) : List Step :=
  if s.inPlace then []
  else writeSteps target text ++ (map.map fun t => Step.sideFile (target ++ ".map") t).toList

/-- **A path without extension**: the last point counts unless a slash follows it. -/
def stripExtension (path : String) : String :=
  let back := path.toList.reverse
  match back.dropWhile fun c => c != '.' && c != '/' with
  | '.' :: rest => String.ofList rest.reverse
  | _ => path

def resultSteps (target : String) (w : Extracted) (f : BundleFile) : List Step :=
  let stem := Path.withoutExtension target
  writeSteps target w.contents ++
    (w.sourceMap.map fun t => Step.sideFile (target ++ ".map") t.toList).toList ++
    [.sideFile (stem ++ ".nls.json") (Json.ofStrings w.bundle.messages).compact.toList,
      .sideFile (stem ++ bundleSuffix) f.toJson.pretty.toList]

def problemDiagnostic (shown : String) (lines : List Text.Line) (p : Calls.Problem) : Diagnostic where
  severity := .error
  file := shown
  position := some p.position
  message := p.fault.text
  sourceLine := (lines[p.position.line]?).map (·.content)

/-- **What to do with a script that was read**: steps, and what is told if they succeed. -/
def plan (s : Settings) (file : String) (text : List Char) (map : Option (List Char)) :
    Except Failure (List Step × FileOutcome) :=
  let relative := Path.relativeTo s.root file
  let shown := Path.relativeTo s.base file
  let target := Path.join s.outputRoot relative
  let options : ExtractionOptions := {
    relative := if s.relativePaths then some ((Path.fileName? file).getD "").toList else none
    sourceMap := map.map String.ofList
    moduleName := s.moduleName }
  match extract relative text options with
  | .error e => .error (.extracting e)
  | .ok (.rejected problems) =>
    let lines := Text.splitLines text
    .ok (copySteps s target text map, ⟨problems.map (problemDiagnostic shown lines), none⟩)
  | .ok .unchanged => .ok (copySteps s target text map, ⟨[], none⟩)
  | .ok (.extracted w) =>
    let bundle : BundleFile := ⟨w.bundle, stripExtension relative⟩
    .ok (resultSteps target w bundle, ⟨[], some bundle⟩)

section

variable {m : Type → Type} [Monad m] [Disk m]

def perform (step : Step) : m (Except Failure Unit) := do
  match step with
  | .folder path => return (← Disk.makeFolders path).mapError (.creating path)
  | .mainFile path text => return (← Disk.writeText path text).mapError (.writing path)
  | .sideFile path text => return (← Disk.writeText path text).mapError .file

def performAll : List Step → m (Except Failure Unit)
  | [] => return .ok ()
  | step :: steps => do
    match ← perform step with
    | .ok () => performAll steps
    | .error failure => return .error failure

def treat (s : Settings) (file : String) : m (Except Failure FileOutcome) := do
  match ← Disk.readText file with
  | .error e => return .error (.reading (Path.relativeTo s.base file) e)
  | .ok text =>
    let map ← Disk.readText (file ++ ".map")
    match plan s file text map.toOption with
    | .error failure => return .error failure
    | .ok (steps, outcome) =>
      match ← performAll steps with
      | .ok () => return .ok outcome
      | .error failure => return .error failure

/-- **Treat one script**; a failure is a message about it. -/
def processFile (s : Settings) (file : String) : m FileOutcome := do
  match ← treat s file with
  | .ok outcome => return outcome
  | .error failure =>
    return ⟨[Diagnostic.ofFile .error (Path.relativeTo s.base file) failure.message], none⟩

def processFiles (s : Settings) : List String → m (List FileOutcome)
  | [] => return []
  | file :: files => do
    let first ← processFile s file
    let rest ← processFiles s files
    return first :: rest

def manifestOf (outcomes : List FileOutcome) : Manifest :=
  (outcomes.filterMap (·.bundle)).foldl Manifest.add .empty

def manifestFile : String := "nls.metadata.json"

def headerFile : String := "nls.metadata.header.json"

def writeManifest (s : Settings) (id : String) (manifest : Manifest) : m (Except Failure Unit) := do
  let header := manifest.header id (Path.relativeTo s.base s.outputRoot)
  match ← Disk.makeFolders s.outputRoot with
  | .error e => return .error (.file e)
  | .ok () => performAll [
      .mainFile (Path.join s.outputRoot manifestFile) manifest.toJson.pretty.toList,
      .sideFile (Path.join s.outputRoot headerFile) header.toJson.pretty.toList]

def skippedNote (skipped : Nat) (verbose : Bool) : String :=
  if skipped == 0 then ""
  else
    "Warning: " ++ toString skipped ++ " path(s) skipped due to access errors" ++
      (if verbose then "" else " (use -v for details)") ++ "\n"

def settingsOf (args : ProcessArguments) (c : Context) : Settings where
  root := c.root
  outputRoot :=
    match args.outDir, c.config.outDir with
    | none, none => c.root
    | given, configured => c.resolve given (configured.getD "")
  base := c.base
  moduleName := args.moduleName.getD c.config.moduleName
  relativePaths := args.relativePaths || c.config.relativePaths

def run (working : String) (args : ProcessArguments) : Command m CommandResult := do
  let context ← loadContext working args.root args.verbose
  let settings := settingsOf args context
  let scan ← Command.ask (scanScripts context.root context.config.includes context.config.ignores)
  Command.note (skippedNote scan.skipped args.verbose)
  let outcomes ← Command.ask (processFiles settings scan.files)
  let bundles := outcomes.filterMap (·.bundle)
  let bundleId := args.bundleId.or context.config.bundleId
  if let some id := bundleId then
    Command.askFor (writeManifest settings id (manifestOf outcomes))
  let messages := bundles.foldl (fun n f => n + f.bundle.messages.length) 0
  return CommandResult.ofDiagnostics (.process scan.files.length bundles.length messages bundleId)
    (outcomes.flatMap (·.diagnostics))

end

end Process
end Localizer
