import Localizer.Files.Path
/-!
# Tree — files, folders and links

A tree gives for each place, a list of names from the root, what stands there.  `FileTree.locate` finds the place that a
path means: it goes step by step, follows links, and takes at most forty of them.  A path may also mean a place where
nothing stands yet, if the folder is there.
-/
namespace Localizer

inductive FileNode where
  | file (contents : ByteArray)
  | folder
  | link (target : String)
  deriving Inhabited

inductive FileKind where
  | file
  | folder
  deriving DecidableEq, Repr, Inhabited

inductive FileError where
  | notFound
  | notFolder
  | isFolder
  | alreadyThere
  | tooManyLinks
  | notText
  | other (message : String)
  deriving DecidableEq, Repr, Inhabited

def FileError.message : FileError → String
  | .notFound => "No such file or directory (os error 2)"
  | .notFolder => "Not a directory (os error 20)"
  | .isFolder => "Is a directory (os error 21)"
  | .alreadyThere => "File exists (os error 17)"
  | .tooManyLinks => "Too many levels of symbolic links (os error 40)"
  | .notText => "stream did not contain valid UTF-8"
  | .other message => message

abbrev Place := List String

/-- **What stands at which place.**  The root is always a folder. -/
structure FileTree where
  entries : List (Place × FileNode)
  deriving Inhabited

/-- **Where a path leads**: to a place with something, or to a free place in a folder. -/
inductive Located where
  | found (place : Place) (node : FileNode)
  | vacant (place : Place)
  deriving Inhabited

namespace FileTree

def empty : FileTree := ⟨[]⟩

def at? (tree : FileTree) (place : Place) : Option FileNode :=
  if place.isEmpty then some .folder else (tree.entries.find? fun e => e.1 == place).map (·.2)

def put (tree : FileTree) (place : Place) (node : FileNode) : FileTree :=
  ⟨tree.entries.filter (fun e => e.1 != place) ++ [(place, node)]⟩

/-- **Go through the segments of a path** from a folder.  `onLink` goes on after a link, from the folder where its
target starts, through the target's segments and those that are left; a link at the very end is followed only if
`follow` says so. -/
def stepThrough (tree : FileTree) (follow : Bool) (onLink : Place → List String → Except FileError Located) :
    Place → List String → Except FileError Located
  | place, [] => .ok (.found place ((tree.at? place).getD .folder))
  | place, segment :: rest =>
    if Path.isIdle segment then stepThrough tree follow onLink place rest
    else if segment == ".." then stepThrough tree follow onLink place.dropLast rest
    else
      let next := place ++ [segment]
      match tree.at? next with
      | some .folder => stepThrough tree follow onLink next rest
      | some (.file contents) => if rest.isEmpty then .ok (.found next (.file contents)) else .error .notFolder
      | some (.link target) =>
        if rest.isEmpty && !follow then .ok (.found next (.link target))
        else if target.isEmpty then .error .notFound
        else onLink (if Path.isAbsolute target then [] else place) (Path.segments target ++ rest)
      | none => if rest.isEmpty then .ok (.vacant next) else .error .notFound

def locateWith (tree : FileTree) (follow : Bool) : (links : Nat) → Place → List String → Except FileError Located
  | 0 => stepThrough tree follow fun _ _ => .error .tooManyLinks
  | links + 1 => stepThrough tree follow (locateWith tree follow links)

def locate (tree : FileTree) (follow : Bool) (path : String) : Except FileError Located :=
  if path.isEmpty then .error .notFound else locateWith tree follow 40 [] (Path.segments path)

def kind? (tree : FileTree) (path : String) : Option FileKind :=
  match tree.locate true path with
  | .ok (.found _ (.file _)) => some .file
  | .ok (.found _ .folder) => some .folder
  | _ => none

def read (tree : FileTree) (path : String) : Except FileError ByteArray :=
  match tree.locate true path with
  | .ok (.found _ (.file contents)) => .ok contents
  | .ok (.found _ _) => .error .isFolder
  | .ok (.vacant _) => .error .notFound
  | .error e => .error e

def write (tree : FileTree) (path : String) (contents : ByteArray) : Except FileError FileTree :=
  match tree.locate true path with
  | .ok (.found place (.file _)) => .ok (tree.put place (.file contents))
  | .ok (.found _ _) => .error .isFolder
  | .ok (.vacant place) => .ok (tree.put place (.file contents))
  | .error e => .error e

/-- **A path without slashes at its end**; a slash that stands first stays. -/
def withoutSlashes (path : String) : String :=
  match path.toList with
  | [] => ""
  | c :: cs => String.ofList (c :: (cs.reverse.dropWhile (· == '/')).reverse)

def makeFolder (tree : FileTree) (path : String) : Except FileError FileTree :=
  match tree.locate false (withoutSlashes path) with
  | .ok (.found _ _) => .error .alreadyThere
  | .ok (.vacant place) => .ok (tree.put place .folder)
  | .error e => .error e

def ensureFolder (tree : FileTree) (path : String) : Except FileError FileTree :=
  match tree.makeFolder path with
  | .ok tree => .ok tree
  | .error e => if tree.kind? path == some .folder then .ok tree else .error e

/-- **Make a folder and those that hold it**, as far as `levels` reach. -/
def makeFoldersWithin : (levels : Nat) → FileTree → String → Except FileError FileTree
  | 0, tree, path => tree.ensureFolder path
  | levels + 1, tree, path =>
    if path.isEmpty then .ok tree
    else
      match tree.makeFolder path with
      | .ok tree => .ok tree
      | .error .notFound =>
        match Path.parent? path with
        | none => .error .notFound
        | some parent =>
          match makeFoldersWithin levels tree parent with
          | .ok tree => tree.ensureFolder path
          | .error e => .error e
      | .error e => if tree.kind? path == some .folder then .ok tree else .error e

def makeFolders (tree : FileTree) (path : String) : Except FileError FileTree :=
  makeFoldersWithin (Path.segments path).length tree path

def filesBelow (tree : FileTree) (place : Place) : List Place :=
  tree.entries.filterMap fun e =>
    match e.2 with
    | .file _ => if place.isPrefixOf e.1 && place.length < e.1.length then some (e.1.drop place.length) else none
    | _ => none

end FileTree
end Localizer
