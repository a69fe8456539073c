import Localizer.Commands.Run
/-!
# Main — the command line on the real disk

The operations of the disk, the words of the command line, and what is printed.  All that a command does is decided
elsewhere.
-/
namespace Localizer
namespace Main

def errorNumber : IO.Error → Nat
  | .noFileOrDirectory _ code _ => code.toNat
  | .inappropriateType _ code _ => code.toNat
  | .alreadyExists _ code _ => code.toNat
  | .invalidArgument _ code _ => code.toNat
  | .otherError code _ => code.toNat
  | _ => 0

def fileError (e : IO.Error) : FileError :=
  match errorNumber e with
  | 2 => .notFound
  | 17 => .alreadyThere
  | 20 => .notFolder
  | 21 => .isFolder
  | 40 => .tooManyLinks
  | _ => .other e.toString

def attempted {α : Type} (action : IO α) : IO (Except FileError α) := do
  match ← action.toBaseIO with
  | .ok a => return .ok a
  | .error e => return .error (fileError e)

def kindOf (path : String) : IO (Option FileKind) := do
  match ← ((System.mkFilePath [path]).metadata).toBaseIO with
  | .ok info => return if info.type == .dir then some .folder else if info.type == .file then some .file else none
  | .error _ => return none

/-- **The files of a folder and of all folders in it**; links are not followed. -/
partial def filesIn (folder : String) : IO Walk := do
  match ← ((System.mkFilePath [folder]).readDir).toBaseIO with
  | .error _ => return ⟨[], 1⟩
  | .ok entries =>
    let mut walk : Walk := ⟨[], 0⟩
    for entry in entries do
      let path := Path.join folder entry.fileName
      match ← ((System.mkFilePath [path]).symlinkMetadata).toBaseIO with
      | .error _ => walk := ⟨walk.files, walk.skipped + 1⟩
      | .ok info =>
        if info.type == .dir then
          let inner ← filesIn path
          walk := ⟨walk.files ++ inner.files, walk.skipped + inner.skipped⟩
        else if info.type == .file then walk := ⟨walk.files ++ [path], walk.skipped⟩
    return walk

def walkFrom (root : String) : IO Walk := do
  match ← ((System.mkFilePath [root]).symlinkMetadata).toBaseIO with
  | .error _ => return ⟨[], 1⟩
  | .ok info =>
    if info.type == .file then return ⟨[root], 0⟩
    match ← kindOf root with
    | some .folder => filesIn root
    | some .file => return ⟨[], 0⟩
    | none => return ⟨[], 1⟩

instance : Disk IO where
  read path := attempted (IO.FS.readBinFile path)
  write path contents := attempted (IO.FS.writeBinFile path contents)
  makeFolders path := attempted (IO.FS.createDirAll path)
  kind? := kindOf
  walk := walkFrom

def usageText : UsageError → String
  | .unknownArgument => "error: unexpected argument"
  | .unknownCommand => "error: unrecognized subcommand"
  | .missingArgument => "error: a required argument is missing: --language <LANGUAGES>"
  | .invalidValue => "error: a value is required for an option"
  | .conflict => "error: an option cannot be used multiple times"
  | .tooManyValues => "error: unexpected value for a flag"
  | .help => helpText
  | .version => "localizer"

def carryOut (words : List String) : IO UInt32 := do
  match Arguments.read words with
  | .error e =>
    if e == .help || e == .version then
      IO.println (usageText e)
      return 0
    IO.eprintln (usageText e)
    return 2
  | .ok args =>
    let working := (← IO.currentDir).toString
    let colour ← (← IO.getStdout).isTty
    let report ← runArguments colour working args
    IO.eprint report.notes
    IO.print report.output
    if let some failure := report.failure then IO.eprintln ("Error: " ++ failure.message)
    return UInt32.ofNat report.status.code

end Main
end Localizer

def main (words : List String) : IO UInt32 := Localizer.Main.carryOut words
