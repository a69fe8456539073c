import Localizer.Files.Disk
import Localizer.Files.Glob
/-!
# Scan — the files that a command works on

A scan walks a folder and keeps the files that no pattern of `ignores` matches and that the command wants: scripts whose
path matches one of `includes`, or files of messages.  Patterns see paths relative to the folder; those that cannot be
read match nothing.  The files come in the order of their paths.
-/
namespace Localizer

def readGlobs (patterns : List String) : List Glob :=
  patterns.filterMap fun p =>
    match Glob.read p with
    | .ok g => some g
    | .error _ => none

def anyMatch (globs : List Glob) (path : String) : Bool := globs.any (·.matches? path)

def isScript (path : String) : Bool :=
  match Path.extension? path with
  | some e => ["js", "mjs", "cjs", "jsx", "ts", "mts", "cts", "tsx"].contains e
  | none => false

def bundleSuffix : String := ".nls.metadata.json"

def packageFile : String := "package.nls.json"

def endsWith (text ending : String) : Bool := ending.toList.reverse.isPrefixOf text.toList.reverse

def isBundleFile (path : String) : Bool :=
  match Path.fileName? path with
  | some name => endsWith name bundleSuffix || name == packageFile
  | none => false

def sortPaths (paths : List String) : List String := paths.mergeSort fun a b => !Path.before b a

def Walk.select (root : String) (ignores : List String) (wanted : String → Bool) (walk : Walk) : Walk where
  files := sortPaths (walk.files.filter fun path =>
    !anyMatch (readGlobs ignores) (Path.relativeTo root path) && wanted path)
  skipped := walk.skipped

section

variable {m : Type → Type} [Monad m] [Disk m]

def scanScripts (root : String) (includes ignores : List String) : m Walk := do
  let walk ← Disk.walk root
  return walk.select root ignores fun path =>
    isScript path && anyMatch (readGlobs includes) (Path.relativeTo root path)

def scanBundles (root : String) (ignores : List String) : m Walk := do
  let walk ← Disk.walk root
  return walk.select root ignores isBundleFile

end

end Localizer
