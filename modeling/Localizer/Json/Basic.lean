/-!
# Json — values of the data format

An object is the list of its members as they were written, repeated names included: who reads an object decides what a
repetition means.  A number is an integer when it was written as one and fits into 64 bits; every other number is a
decimal, kept exactly.
-/
namespace Localizer

inductive JsonNumber where
  | integer (value : Int)
  /-- the coefficient times that power of ten; the sign stands apart because zero has one too -/
  | decimal (negative : Bool) (coefficient : Nat) (exponent : Int)
  deriving DecidableEq, Repr, Inhabited

inductive Json where
  | null
  | bool (value : Bool)
  | number (value : JsonNumber)
  | string (value : String)
  | array (elements : List Json)
  | object (members : List (String × Json))
  deriving Repr, Inhabited

namespace Json

def ofNat (n : Nat) : Json := .number (.integer n)

def ofStrings (l : List String) : Json := .array (l.map .string)

def ofOption (text : Option String) : Json :=
  match text with
  | some s => .string s
  | none => .null

end Json

end Localizer
