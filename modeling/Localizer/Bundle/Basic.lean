/-!
# Bundle — the messages of one script

A bundle lists messages and, beside them, their keys.  A key may carry comments for translators.
-/
namespace Localizer

inductive Key where
  | bare (name : String)
  | commented (name : String) (comment : List String)
  deriving DecidableEq, Repr, Inhabited

def Key.name : Key → String
  | .bare name => name
  | .commented name _ => name

/-- **Messages with their keys**, in the order of their numbers. -/
structure Bundle where
  messages : List String
  keys : List Key
  deriving DecidableEq, Repr, Inhabited

namespace Bundle

def empty : Bundle := ⟨[], []⟩

def push (b : Bundle) (key : Key) (message : String) : Bundle := ⟨b.messages ++ [message], b.keys ++ [key]⟩

def isEmpty (b : Bundle) : Bool := b.messages.isEmpty && b.keys.isEmpty

end Bundle
end Localizer
