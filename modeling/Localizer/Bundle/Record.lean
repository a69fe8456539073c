import Localizer.Bundle.Basic
import Localizer.Json.Decode
import Localizer.Json.Printer
/-!
# Record — keys and bundles as values of the data format

A key is a string, or an object with `key` and `comment`.  A bundle is a record of `messages` and `keys`.
-/
namespace Localizer

def Key.toJson : Key → Json
  | .bare name => .string name
  | .commented name comment => .object [("key", .string name), ("comment", Json.ofStrings comment)]

/-- **The key that a value stands for.**  Comments may be left out. -/
def Key.ofJson : Json → Option Key
  | .string name => some (.bare name)
  | .object members => do
    let name ← Json.required? Json.string? (← Json.member? "key" members)
    let comment ← Json.optional? (Json.list? Json.string?) [] (← Json.member? "comment" members)
    return .commented name comment
  | _ => none

namespace Bundle

def toJson (b : Bundle) : Json :=
  .object [("messages", Json.ofStrings b.messages), ("keys", .array (b.keys.map Key.toJson))]

def ofJson (v : Json) : Option Bundle := do
  match ← Json.fieldsOrElements? ["messages", "keys"] v with
  | [messages, keys] =>
    let messages ← Json.required? (Json.list? Json.string?) messages
    let keys ← Json.required? (Json.list? Key.ofJson) keys
    return ⟨messages, keys⟩
  | _ => none

end Bundle
end Localizer
