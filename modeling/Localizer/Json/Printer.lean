import Localizer.Json.Double
import Localizer.Text.Basic
/-!
# Printer — values as text

`compact` writes no blanks.  `pretty` puts each element and member on a line of its own, two blanks further in than what
holds it; an empty array or object stays on one line.
-/
namespace Localizer
namespace Json

open Text (joined)

def quoteChar (c : Char) : List Char :=
  if c == '"' then ['\\', '"']
  else if c == '\\' then ['\\', '\\']
  else if c.toNat == 8 then ['\\', 'b']
  else if c.toNat == 12 then ['\\', 'f']
  else if c == '\n' then ['\\', 'n']
  else if c == '\r' then ['\\', 'r']
  else if c == '\t' then ['\\', 't']
  else if c.toNat < 32 then '\\' :: 'u' :: '0' :: '0' :: Text.hexByte c.toNat
  else [c]

def quote (s : String) : List Char := '"' :: (s.toList.flatMap quoteChar ++ ['"'])

mutual

def compactChars : Json → List Char
  | .null => "null".toList
  | .bool true => "true".toList
  | .bool false => "false".toList
  | .number n => n.text
  | .string s => quote s
  | .array elements => '[' :: joined [','] (compactElements elements) ++ [']']
  | .object members => '{' :: joined [','] (compactMembers members) ++ ['}']

def compactElements : List Json → List (List Char)
  | [] => []
  | v :: vs => compactChars v :: compactElements vs

def compactMembers : List (String × Json) → List (List Char)
  | [] => []
  | (name, v) :: ms => (quote name ++ ':' :: compactChars v) :: compactMembers ms

end

def freshLine (depth : Nat) : List Char := '\n' :: List.replicate (2 * depth) ' '

/-- **Items between two brackets**, each on its own line unless there are none. -/
def bracketed (depth : Nat) (opening closing : Char) (items : List (List Char)) : List Char :=
  if items.isEmpty then [opening, closing]
  else
    opening :: freshLine (depth + 1) ++ joined (',' :: freshLine (depth + 1)) items ++ freshLine depth ++ [closing]

mutual

/-- **A value over several lines**, when what holds it is `depth` levels in. -/
def prettyChars (depth : Nat) : Json → List Char
  | .null => "null".toList
  | .bool true => "true".toList
  | .bool false => "false".toList
  | .number n => n.text
  | .string s => quote s
  | .array elements => bracketed depth '[' ']' (prettyElements (depth + 1) elements)
  | .object members => bracketed depth '{' '}' (prettyMembers (depth + 1) members)

def prettyElements (depth : Nat) : List Json → List (List Char)
  | [] => []
  | v :: vs => prettyChars depth v :: prettyElements depth vs

def prettyMembers (depth : Nat) : List (String × Json) → List (List Char)
  | [] => []
  | (name, v) :: ms => (quote name ++ ':' :: ' ' :: prettyChars depth v) :: prettyMembers depth ms

end

def compact (v : Json) : String := String.ofList (compactChars v)

def pretty (v : Json) : String := String.ofList (prettyChars 0 v)

end Json
end Localizer
