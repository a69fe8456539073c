import Localizer.Text.Basic
/-!
# Path — names of files, as text

A path is kept as it was written: joining does not normalize.  What a path means is read from its components: empty
segments and inner `.` segments say nothing, a leading `.` and every `..` do.  Comparison, the last name, the extension
and the part below a directory are all taken from the components.
-/
namespace Localizer

inductive Component where
  | root
  | here
  | up
  | name (text : String)
  deriving DecidableEq, Repr, Inhabited

namespace Component

def rank : Component → Nat
  | .root => 0
  | .here => 1
  | .up => 2
  | .name _ => 3

/-- **Order of steps**: root, here, up, then names by their bytes. -/
def before : Component → Component → Bool
  | .name a, .name b => Text.textBefore a b
  | a, b => a.rank < b.rank

end Component

namespace Path

def segments (path : String) : List String := (Text.pieces '/' path.toList).map String.ofList

def isAbsolute (path : String) : Bool := path.toList.head? == some '/'

def isIdle (segment : String) : Bool := segment == "" || segment == "."

def componentOf (segment : String) : Component :=
  if segment == ".." then .up else .name segment

def components (path : String) : List Component :=
  let inner := fun (ss : List String) => (ss.filter (!isIdle ·)).map componentOf
  if isAbsolute path then .root :: inner (segments path)
  else match segments path with
    | "." :: rest => .here :: inner rest
    | ss => inner ss

/-- **The segments without those at the end that say nothing.**  A first segment always stays. -/
def trimmedSegments (path : String) : List String :=
  match segments path with
  | [] => []
  | s :: ss => s :: (ss.reverse.dropWhile isIdle).reverse

def joinSegments (ss : List String) : String := String.ofList (Text.joined ['/'] (ss.map String.toList))

def ofSegments (ss : List String) : String := if ss == [""] then "/" else joinSegments ss

/-- **One path after another**: an absolute second path stands alone. -/
def join (base path : String) : String :=
  if isAbsolute path || base == "" then path
  else if base.toList.getLast? == some '/' then base ++ path
  else base ++ "/" ++ path

/-- **The directory that holds a path**; none for a root and for nothing. -/
def parent? (path : String) : Option String :=
  match trimmedSegments path with
  | [] => none
  | [s] => if s == "" then none else some ""
  | s :: ss =>
    some (ofSegments (s :: (ss.dropLast.reverse.dropWhile isIdle).reverse))

def fileName? (path : String) : Option String :=
  match (components path).getLast? with
  | some (.name n) => some n
  | _ => none

/-- **A name before and after its last point.**  A point at the start does not count. -/
def splitName (name : String) : String × Option String :=
  let back := name.toList.reverse
  let after := back.takeWhile (· != '.')
  match back.dropWhile (· != '.') with
  | [] => (name, none)
  | _ :: first =>
    if first.isEmpty then (name, none) else (String.ofList first.reverse, some (String.ofList after.reverse))

def extension? (path : String) : Option String := (fileName? path).bind fun n => (splitName n).2

def stem? (path : String) : Option String := (fileName? path).map fun n => (splitName n).1

def withoutExtension (path : String) : String :=
  match stem? path with
  | some stem => ofSegments ((trimmedSegments path).dropLast ++ [stem])
  | none => path

def withName (path name : String) : String :=
  match fileName? path with
  | some _ => join ((parent? path).getD "") name
  | none => join path name

/-- **Drop the first segments that make up `n` steps**, and what says nothing after them. -/
def dropSteps : Nat → List String → List String
  | 0, ss => ss.dropWhile isIdle
  | n + 1, ss =>
    match ss.dropWhile isIdle with
    | [] => []
    | _ :: rest => dropSteps n rest

def below? (base path : String) : Option String :=
  let steps := components base
  if steps.isPrefixOf (components path) then
    let ss := trimmedSegments path
    let rest := match steps with
      | [] => ss
      | .root :: more => dropSteps more.length ss
      | .here :: more => dropSteps more.length (ss.drop 1)
      | more => dropSteps more.length ss
    some (joinSegments rest)
  else none

/-- **Path relative to a directory**, with forward slashes; a path outside stays whole. -/
def relativeTo (base path : String) : String :=
  String.ofList (((below? base path).getD path).toList.map fun c => if c == '\\' then '/' else c)

/-- **Order of paths**, step by step. -/
def before (a b : String) : Bool := go (components a) (components b)
where
  go : List Component → List Component → Bool
    | [], [] => false
    | [], _ :: _ => true
    | _ :: _, [] => false
    | x :: xs, y :: ys => Component.before x y || (x == y && go xs ys)

end Path
end Localizer
