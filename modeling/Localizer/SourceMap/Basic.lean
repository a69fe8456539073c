/-!
# SourceMap — which place of a source a place of a script came from

A mapping ties a generated place to its origin: a source, a line and a column of it, and perhaps a name.  A mapping may
also have no origin.  Lines, columns and all numbers of a map are below `2 ^ 32`.
-/
namespace Localizer

structure Origin where
  source : String
  line : Nat
  column : Nat
  name : Option String
  deriving DecidableEq, Repr, Inhabited

structure Mapping where
  line : Nat
  column : Nat
  origin : Option Origin
  deriving DecidableEq, Repr, Inhabited

/-- **What a map says besides its mappings**: the generated file and the sources whose contents it holds. -/
structure MapHeader where
  file : Option String
  contents : List (String × String)
  deriving DecidableEq, Repr, Inhabited

structure SourceMap where
  header : MapHeader
  mappings : List Mapping
  deriving DecidableEq, Repr, Inhabited

def mapLimit : Nat := Nat.pow 2 32

def Mapping.upTo (a b : Mapping) : Bool :=
  Nat.blt a.line b.line || (a.line == b.line && Nat.ble a.column b.column)

/-- **Mappings by generated place**; those of one place stay in order. -/
def sortMappings (ms : List Mapping) : List Mapping := ms.mergeSort Mapping.upTo

end Localizer
