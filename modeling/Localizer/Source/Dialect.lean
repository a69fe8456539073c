import Localizer.Files.Path
/-!
# Dialect — which language a script is written in

The extension of a file name picks the language: TypeScript, TypeScript with elements, JavaScript with elements, or
plain JavaScript for everything else.
-/
namespace Localizer
namespace Source

/-- **A language variant**: whether it has types, and whether it has markup elements. -/
structure Dialect where
  types : Bool
  elements : Bool
  deriving DecidableEq, Repr, Inhabited

namespace Dialect

def decorators (d : Dialect) : Bool := d.types

def ofPath (path : String) : Dialect :=
  match Path.extension? path with
  | some "ts" | some "mts" | some "cts" => ⟨true, false⟩
  | some "tsx" => ⟨true, true⟩
  | some "jsx" => ⟨false, true⟩
  | _ => ⟨false, false⟩

end Dialect
end Source
end Localizer
