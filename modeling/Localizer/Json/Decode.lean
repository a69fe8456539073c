import Localizer.Json.Reader
/-!
# Decode — what a value must look like

Decoders take a value and give what it stands for, or nothing if it does not fit.  A record is an object with known
members, each at most once, among others that do not matter; `fieldsOrElements?` also takes an array of the values in the
order of the names, where the last ones may be missing.
-/
namespace Localizer
namespace Json

def string? : Json → Option String
  | .string s => some s
  | _ => none

def bool? : Json → Option Bool
  | .bool b => some b
  | _ => none

def natBelow? (limit : Nat) : Json → Option Nat
  | .number (.integer (.ofNat n)) => if n < limit then some n else none
  | _ => none

def list? {α : Type} (element : Json → Option α) : Json → Option (List α)
  | .array vs => vs.mapM element
  | _ => none

def nullable? {α : Type} (value : Json → Option α) : Json → Option (Option α)
  | .null => some none
  | v => (value v).map some

/-- **The one member of a name**: fails where the name is repeated. -/
def member? (name : String) (members : List (String × Json)) : Option (Option Json) :=
  match members.filter fun m => m.1 == name with
  | [] => some none
  | [m] => some (some m.2)
  | _ => none

def fields? (names : List String) : Json → Option (List (Option Json))
  | .object members => names.mapM fun name => member? name members
  | _ => none

def fieldsOrElements? (names : List String) : Json → Option (List (Option Json))
  | .array vs => if names.length < vs.length then none else some ((List.range names.length).map fun i => vs[i]?)
  | v => fields? names v

def required? {α : Type} (value : Json → Option α) (field : Option Json) : Option α := field.bind value

def optional? {α : Type} (value : Json → Option α) (default : α) : Option Json → Option α
  | some v => value v
  | none => some default

def maybe? {α : Type} (value : Json → Option α) : Option Json → Option (Option α)
  | some v => nullable? value v
  | none => some none

/-- **The texts of an object**, by name: later members replace earlier ones. -/
def texts? : Json → Option (List (String × String))
  | .object members => members.mapM fun m => (string? m.2).map (m.1, ·)
  | _ => none

end Json
end Localizer
