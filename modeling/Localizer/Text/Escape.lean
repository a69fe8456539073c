/-!
# Escape — backslashes in the text between quotes

Both functions read a text in units: a backslash with the character after it, or one character.  `unescape` replaces
eight escapes and keeps every other unit as it is; `escapeQuoted` makes a text safe between single quotes.
-/
namespace Localizer
namespace Text

/-- **The character that an escape stands for**, if it is one of the eight. -/
def escaped? (c : Char) : Option Char :=
  if c == 'n' then some '\n'
  else if c == 'r' then some '\r'
  else if c == 't' then some '\t'
  else if c == 'b' then some (Char.ofNat 8)
  else if c == 'f' then some (Char.ofNat 12)
  else if c == '\\' || c == '\'' || c == '"' then some c
  else none

def unescape : List Char → List Char
  | [] => []
  | '\\' :: c :: cs =>
    match escaped? c with
    | some d => d :: unescape cs
    | none => '\\' :: c :: unescape cs
  | c :: cs => c :: unescape cs

def escapeQuoted (cs : List Char) : List Char :=
  cs.flatMap fun c => if c == '\\' || c == '\'' then ['\\', c] else [c]

end Text
end Localizer
