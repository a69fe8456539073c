import Localizer.Files.Tree
/-!
# Disk — what commands ask of a file system

Commands are written once for every disk: for the real one, and for a `FileTree` that is passed along.  Walking a folder
gives all its files, however deep; links inside it are not followed and are no files.
-/
namespace Localizer

/-- **What a walk found**: the paths of files, and how many places could not be looked at. -/
structure Walk where
  files : List String
  skipped : Nat
  deriving DecidableEq, Repr, Inhabited

class Disk (m : Type → Type) where
  read : String → m (Except FileError ByteArray)
  write : String → ByteArray → m (Except FileError Unit)
  makeFolders : String → m (Except FileError Unit)
  kind? : String → m (Option FileKind)
  walk : String → m Walk

namespace FileTree

def pathBelow (root : String) (names : Place) : String := Path.join root (Path.joinSegments names)

/-- **All files at or below a path.**  A link at the path itself is followed if it leads to a folder. -/
def walk (tree : FileTree) (root : String) : Walk :=
  let below (place : Place) : Walk := ⟨(tree.filesBelow place).map (pathBelow root), 0⟩
  match tree.locate false root with
  | .ok (.found _ (.file _)) => ⟨[root], 0⟩
  | .ok (.found place .folder) => below place
  | .ok (.found _ (.link _)) =>
    match tree.locate true root with
    | .ok (.found place .folder) => below place
    | .ok (.found _ _) => ⟨[], 0⟩
    | _ => ⟨[], 1⟩
  | _ => ⟨[], 1⟩

def change (f : FileTree → Except FileError FileTree) : StateM FileTree (Except FileError Unit) := fun tree =>
  match f tree with
  | .ok next => (.ok (), next)
  | .error e => (.error e, tree)

instance : Disk (StateM FileTree) where
  read path := fun tree => (tree.read path, tree)
  write path contents := change fun tree => tree.write path contents
  makeFolders path := change fun tree => tree.makeFolders path
  kind? path := fun tree => (tree.kind? path, tree)
  walk root := fun tree => (tree.walk root, tree)

end FileTree

namespace Disk

variable {m : Type → Type} [Monad m] [Disk m]

def textOf (bytes : ByteArray) : Except FileError (List Char) :=
  match String.fromUTF8? bytes with
  | some text => .ok text.toList
  | none => .error .notText

def bytesOf (text : List Char) : ByteArray := (String.ofList text).toUTF8

def readText (path : String) : m (Except FileError (List Char)) := do
  match ← read path with
  | .ok bytes => return textOf bytes
  | .error e => return .error e

def writeText (path : String) (text : List Char) : m (Except FileError Unit) := write path (bytesOf text)

def present (path : String) : m Bool := return (← kind? path).isSome

end Disk
end Localizer
