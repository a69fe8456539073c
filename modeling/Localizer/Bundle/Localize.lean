import Localizer.Table
import Localizer.Bundle.Record
/-!
# Localize — messages in another language

A message is looked up by its key in a catalog and stays as it is where the catalog has none.  A key that is missing
there is a problem only if there is a catalog at all.
-/
namespace Localizer

abbrev Catalog := List (String × String)

structure Resolved where
  keys : List String
  messages : List String
  table : List (String × String)
  deriving DecidableEq, Repr, Inhabited

/-- **Resolve a bundle**: none if it has more keys than messages or fewer.  Of several messages with one key the last
one counts. -/
def Bundle.resolve (b : Bundle) : Option Resolved :=
  if b.messages.length == b.keys.length then
    let keys := b.keys.map Key.name
    some ⟨keys, b.messages, Table.sort (keys.zip b.messages)⟩
  else none

structure Localized (α : Type) where
  messages : α
  problems : List String
  deriving Repr, Inhabited

def missingKey (key : String) : String := "No localized message found for key " ++ key

def translated? (catalog : Option Catalog) (key : String) : Option String :=
  catalog.bind (Table.find? key)

/-- **The problems of keys**: those that a catalog lacks, if there is one. -/
def problemsOf (catalog : Option Catalog) (keys : List String) : List String :=
  match catalog with
  | none => []
  | some _ => (keys.filter fun key => (translated? catalog key).isNone).map missingKey

def Resolved.localize (r : Resolved) (catalog : Option Catalog) : Localized (List String) where
  messages := r.keys.map fun key =>
    (translated? catalog key).getD ((Table.find? key r.table).getD "")
  problems := problemsOf catalog r.keys

/-! ## Messages of a package -/

/-- **Messages by key as values**: a text, or an object with a `message`. -/
abbrev PackageBundle := List (String × Json)

mutual

/-- **A value without repeated names**: of each object's members the last ones count. -/
def Json.collected : Json → Json
  | .array vs => .array (Json.collectedElements vs)
  | .object ms => .object (Table.collect (Json.collectedMembers ms))
  | v => v

def Json.collectedElements : List Json → List Json
  | [] => []
  | v :: vs => v.collected :: Json.collectedElements vs

def Json.collectedMembers : List (String × Json) → List (String × Json)
  | [] => []
  | (name, v) :: ms => (name, v.collected) :: Json.collectedMembers ms

end

def PackageBundle.ofJson (v : Json) : Option PackageBundle :=
  match v.collected with
  | .object members => some members
  | _ => none

def packageMessage (v : Json) : Json :=
  match v with
  | .object members => (Table.find? "message" members).getD v
  | _ => v

def PackageBundle.localize (b : PackageBundle) (catalog : Option Catalog) : Localized PackageBundle where
  messages := b.map fun m =>
    (m.1, match translated? catalog m.1 with
      | some text => .string text
      | none => packageMessage m.2)
  problems := problemsOf catalog (b.map (·.1))

end Localizer
