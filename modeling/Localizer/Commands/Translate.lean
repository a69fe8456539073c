import Localizer.Bundle.Manifest
import Localizer.Bundle.Catalog
import Localizer.Commands.Arguments
import Localizer.Commands.Context
import Localizer.Commands.Process
/-!
# Translate — the messages of scripts in other languages

For each file with messages and for each language a file with the translated messages is written beside it, and for a
manifest one for all its scripts.  Messages that a language lacks stay as they are, with a warning.
-/
namespace Localizer

/-- **A language**: the folder of its catalogs, and its name in the names of files. -/
structure Language where
  folder : String
  id : String
  deriving DecidableEq, Repr, Inhabited

/-- **Read a language**: `FOLDER` or `FOLDER:ID`. -/
def Language.read (value : String) : Except Failure Language :=
  let cs := value.toList
  let folder := Text.trim (cs.takeWhile (· != ':'))
  let id := match cs.dropWhile (· != ':') with
    | [] => folder
    | _ :: rest => Text.trim rest
  if folder.isEmpty || id.isEmpty then .error (.language value) else .ok ⟨String.ofList folder, String.ofList id⟩

namespace Translate

structure Settings where
  i18n : String
  root : String
  base : String
  languages : List Language
  deriving DecidableEq, Repr, Inhabited

structure Progress where
  diagnostics : List Diagnostic
  written : Nat
  deriving DecidableEq, Repr, Inhabited

/-- **A part of the command**: it may fail, and goes on from the progress so far. -/
abbrev Part (m : Type → Type) := ExceptT Failure (StateT Progress m)

section

variable {m : Type → Type} [Monad m] [Disk m]

def ask {α : Type} (action : m α) : Part m α := ExceptT.lift (StateT.lift action)

def warn (file message : String) : Part m Unit :=
  modify fun p => { p with diagnostics := p.diagnostics ++ [Diagnostic.ofFile .warning file message] }

def write (path text : String) : Part m Unit := do
  match ← ask (Disk.writeText path text.toList) with
  | .ok () => modify fun p => { p with written := p.written + 1 }
  | .error e => throw (.writing path e)

def readValue {α : Type} (decode : Json → Option α) (path : String) : Part m α := do
  match ← ask (Disk.readText path) with
  | .error e => throw (.reading path e)
  | .ok text =>
    match (Json.read text).bind decode with
    | some a => return a
    | none => throw (.contents path)

def readCatalog (path : String) : m (Except FileError (Option Catalog)) := do
  match ← Disk.readText path with
  | .ok text => return .ok (Catalog.ofText text)
  | .error .notFound => return .ok none
  | .error e => return .error e

def catalog (s : Settings) (language : Language) (file : String) : Part m (Option Catalog) := do
  match ← ask (readCatalog (Catalog.path s.i18n language.folder none file)) with
  | .ok found => return found
  | .error e => throw (.file e)

def catalogFor (s : Settings) (language : Language) (shown file : String) : Part m (Option Catalog) := do
  let found ← catalog s language file
  if found.isNone then
    warn shown ("No localized messages found for file " ++ file ++ " [" ++ language.id ++ "]")
  return found

def warnAll (shown : String) (language : Language) (problems : List String) : Part m Unit :=
  problems.forM fun p => warn shown (p ++ " [" ++ language.id ++ "]")

def beside (path suffix replacement : String) : String :=
  let name := (Path.fileName? path).getD ""
  let stem := if endsWith name suffix then String.ofList (name.toList.take (name.length - suffix.length)) else name
  Path.withName path (stem ++ replacement)

def translateBundle (s : Settings) (path : String) : Part m Unit := do
  let shown := Path.relativeTo s.base path
  let file ← readValue BundleFile.ofJson path
  match file.bundle.resolve with
  | none => throw .lengths
  | some resolved =>
    s.languages.forM fun language => do
      let found ← catalogFor s language shown file.path
      let localized := resolved.localize found
      warnAll shown language localized.problems
      write (beside path bundleSuffix (".nls." ++ language.id ++ ".json")) (Json.ofStrings localized.messages).compact

def translatePackage (s : Settings) (path : String) : Part m Unit := do
  let shown := Path.relativeTo s.base path
  let bundle ← readValue PackageBundle.ofJson path
  let folder := ((Path.parent? path).map (Path.relativeTo s.root)).getD ""
  let file := if folder.isEmpty then "package" else folder ++ "/package"
  s.languages.forM fun language => do
    let found ← catalogFor s language shown file
    let localized := bundle.localize found
    warnAll shown language localized.problems
    write (beside path packageFile ("package.nls." ++ language.id ++ ".json")) (Json.object localized.messages).pretty

/-- **The messages of all scripts of a manifest in one language.**  Bundles that do not fit together are left out. -/
def localizeManifest (s : Settings) (language : Language) : Manifest → Part m (List (String × Json))
  | [] => return []
  | (path, bundle) :: rest => do
    match bundle.resolve with
    | none => localizeManifest s language rest
    | some resolved =>
      let found ← catalog s language path
      let more ← localizeManifest s language rest
      return (path, Json.ofStrings (resolved.localize found).messages) :: more

def translateManifest (s : Settings) (path : String) : Part m Unit := do
  let manifest ← readValue Manifest.ofJson path
  s.languages.forM fun language => do
    let localized ← localizeManifest s language manifest
    write (beside path Process.manifestFile ("nls.bundle." ++ language.id ++ ".json")) (Json.object localized).compact

def translateFile (s : Settings) (path : String) : StateT Progress m Unit := do
  let part := if Path.fileName? path == some packageFile then translatePackage s path else translateBundle s path
  match ← part.run with
  | .ok () => return ()
  | .error failure =>
    modify fun p => { p with
      diagnostics := p.diagnostics ++
        [Diagnostic.ofFile .error (Path.relativeTo s.base path) failure.message] }

def translateAll (s : Settings) (files : List String) : Part m Unit := do
  ExceptT.lift (files.forM (translateFile s))
  let manifest := Path.join s.root Process.manifestFile
  if (← ask (Disk.kind? manifest)) == some .file then translateManifest s manifest

def run (working : String) (args : TranslateArguments) : Command m CommandResult := do
  let context ← loadContext working args.root args.verbose
  let languages ← match args.languages.mapM Language.read with
    | .ok languages => pure languages
    | .error failure => throw failure
  let settings : Settings := ⟨context.resolve args.i18n context.config.i18nRoot, context.root, context.base, languages⟩
  let scan ← Command.ask (scanBundles context.root context.config.ignores)
  let (outcome, progress) ← Command.ask ((translateAll settings scan.files).run.run ⟨[], 0⟩)
  match outcome with
  | .error failure => throw failure
  | .ok () =>
    return CommandResult.ofDiagnostics (.translate scan.files.length languages.length progress.written)
      progress.diagnostics

end

end Translate
end Localizer
