import Localizer.Extraction
import Localizer.Files.Tree
import Localizer.Files.Glob
/-!
# Failure — why a command or one of its files fails
-/
namespace Localizer

inductive Failure where
  | file (error : FileError)
  | reading (path : String) (error : FileError)
  | writing (path : String) (error : FileError)
  | creating (path : String) (error : FileError)
  | contents (path : String)
  | configContents (path : String)
  | configPattern (field pattern : String) (error : GlobError)
  | configModuleName
  | configPresent (name : String)
  | rootMissing (path : String)
  | language (value : String)
  | lengths
  | extracting (error : ExtractionError)
  deriving DecidableEq, Repr, Inhabited

def quotedPath (path : String) : String :=
  let escape (c : Char) : List Char :=
    if c == '"' || c == '\\' then ['\\', c]
    else if c == '\n' then ['\\', 'n']
    else if c == '\r' then ['\\', 'r']
    else if c == '\t' then ['\\', 't']
    else if c.toNat == 0 then ['\\', '0']
    else if c.toNat < 32 || c.toNat == 127 then "\\u\x7b".toList ++ (Nat.toDigits 16 c.toNat) ++ ['\x7d']
    else [c]
  String.ofList ('"' :: path.toList.flatMap escape ++ ['"'])

namespace Failure

def contentsDetail : String := "unexpected contents"

def message : Failure → String
  | .file e => e.message
  | .reading path e => "Failed to read " ++ path ++ ": " ++ e.message
  | .writing path e => "Failed to write " ++ path ++ ": " ++ e.message
  | .creating path e => "Failed to create " ++ path ++ ": " ++ e.message
  | .contents path => "Failed to parse " ++ path ++ ": " ++ contentsDetail
  | .configContents path => "Failed to parse config file: " ++ quotedPath path ++ ": " ++ contentsDetail
  | .configPattern field pattern e =>
    "Invalid glob pattern in '" ++ field ++ "': \"" ++ pattern ++ "\": " ++ e.message
  | .configModuleName => "'moduleName' must not be empty"
  | .configPresent name => name ++ " already exists"
  | .rootMissing path => "Root directory not found: " ++ path
  | .language value => "Invalid language \"" ++ value ++ "\", expected FOLDER[:ID]"
  | .lengths => "keys and messages differ in length"
  | .extracting e => e.message

end Failure
end Localizer
