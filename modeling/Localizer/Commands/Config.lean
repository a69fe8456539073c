import Localizer.Commands.Failure
import Localizer.Files.Disk
import Localizer.Text.Basic
/-!
# Config — the settings of a project

The settings stand in a file of the working folder or of the nearest folder above it that has one.  The search ends at
the top of a repository.  Settings that are left out have defaults.
-/
namespace Localizer

structure Config where
  /-- patterns of the scripts to treat, relative to `root` -/
  includes : List String
  ignores : List String
  root : String
  /-- the folder for the results, if they do not go in place -/
  outDir : Option String
  moduleName : String
  /-- whether load calls get a path relative to their folder -/
  relativePaths : Bool
  /-- the name of the manifest; without one none is written -/
  bundleId : Option String
  i18nRoot : String
  deriving DecidableEq, Repr, Inhabited

namespace Config

def fileName : String := ".nlsrc.json"

def standard : Config where
  includes := ["**/*.js"]
  ignores := ["**/node_modules/**"]
  root := "./out"
  outDir := none
  moduleName := Calls.defaultModule
  relativePaths := false
  bundleId := none
  i18nRoot := "./i18n"

def toJson (c : Config) : Json :=
  .object [("includes", Json.ofStrings c.includes), ("ignores", Json.ofStrings c.ignores), ("root", .string c.root),
    ("outDir", Json.ofOption c.outDir), ("moduleName", .string c.moduleName),
    ("relativePaths", .bool c.relativePaths), ("bundleId", Json.ofOption c.bundleId), ("i18nRoot", .string c.i18nRoot)]

def ofJson (v : Json) : Option Config := do
  let names := ["includes", "ignores", "root", "outDir", "moduleName", "relativePaths", "bundleId", "i18nRoot"]
  match ← Json.fieldsOrElements? names v with
  | [includes, ignores, root, outDir, moduleName, relativePaths, bundleId, i18nRoot] =>
    return {
      includes := ← Json.optional? (Json.list? Json.string?) standard.includes includes
      ignores := ← Json.optional? (Json.list? Json.string?) standard.ignores ignores
      root := ← Json.optional? Json.string? standard.root root
      outDir := ← Json.maybe? Json.string? outDir
      moduleName := ← Json.optional? Json.string? standard.moduleName moduleName
      relativePaths := ← Json.optional? Json.bool? standard.relativePaths relativePaths
      bundleId := ← Json.maybe? Json.string? bundleId
      i18nRoot := ← Json.optional? Json.string? standard.i18nRoot i18nRoot }
  | _ => none

def brokenPattern? (field : String) (patterns : List String) : Option Failure :=
  patterns.findSome? fun p =>
    match Glob.read p with
    | .ok _ => none
    | .error e => some (.configPattern field p e)

def fault? (c : Config) : Option Failure :=
  match brokenPattern? "includes" c.includes with
  | some f => some f
  | none =>
    match brokenPattern? "ignores" c.ignores with
    | some f => some f
    | none => if (Text.trim c.moduleName.toList).isEmpty then some .configModuleName else none

def ofText (path : String) (text : List Char) : Except Failure Config :=
  match (Json.read text).bind ofJson with
  | none => .error (.configContents path)
  | some config =>
    match config.fault? with
    | some failure => .error failure
    | none => .ok config

end Config

structure LoadedConfig where
  config : Config
  base : String
  fromFile : Bool
  deriving DecidableEq, Repr, Inhabited

section

variable {m : Type → Type} [Monad m] [Disk m]

/-- **The file with the settings for a folder**, looked for in at most so many folders. -/
def findConfigWithin : (levels : Nat) → String → m (Option String)
  | 0, _ => return none
  | levels + 1, folder => do
    let path := Path.join folder Config.fileName
    if ← Disk.present path then return some path
    if ← Disk.present (Path.join folder ".git") then return none
    match Path.parent? folder with
    | some parent => findConfigWithin levels parent
    | none => return none

def findConfig (folder : String) : m (Option String) := findConfigWithin ((Path.segments folder).length + 1) folder

def loadConfig (folder : String) : m (Except Failure LoadedConfig) := do
  match ← findConfig folder with
  | none => return .ok ⟨Config.standard, folder, false⟩
  | some path =>
    match ← Disk.readText path with
    | .error e => return .error (.file e)
    | .ok text =>
      match Config.ofText path text with
      | .error failure => return .error failure
      | .ok config => return .ok ⟨config, (Path.parent? path).getD folder, true⟩

end

end Localizer
