import Localizer.Text.Position
import Localizer.Source.Program
/-!
# Script — a file of source text and its tree

One byte order mark at the front of a file is no part of the script.  The tree's offsets count from the first character
after it, and so does the place of a failure; `Script.position`, `Script.region` and `Script.slice` count it in.  Files
that start with two marks are left out of account: the second is read as a blank.
-/
namespace Localizer

open Text (Position Region positionOf sliceBytes byteLength)

structure ParseFailure where
  file : String
  position : Position
  deriving DecidableEq, Repr, Inhabited

def ParseFailure.message (e : ParseFailure) : String :=
  "failed to parse " ++ e.file ++ ": unexpected token (" ++ e.position.shown ++ ")"

structure Script where
  text : List Char
  markLength : Nat
  program : Source.Program

def byteOrderMark : Char := Char.ofNat 0xFEFF

/-- **A text without one leading mark**, and how many bytes that was. -/
def splitMark (text : List Char) : Nat × List Char :=
  match text with
  | c :: cs => if c == byteOrderMark then (c.utf8Size, cs) else (0, text)
  | [] => (0, [])

namespace Script

/-- **Read a file.**  Its name picks the dialect. -/
def parse (file : String) (text : List Char) : Except ParseFailure Script :=
  let (markLength, body) := splitMark text
  match Source.Program.read (Source.Dialect.ofPath file) body with
  | .ok program => .ok ⟨text, markLength, program⟩
  | .error e => .error ⟨file, (positionOf body e.offset).getD default⟩

def position (s : Script) (offset : Nat) : Position := (positionOf s.text (offset + s.markLength)).getD default

def region (s : Script) (span : Source.Span) : Region := ⟨s.position span.lo, s.position span.hi⟩

def slice (s : Script) (span : Source.Span) : List Char :=
  sliceBytes s.text (span.lo + s.markLength) (span.hi + s.markLength)

end Script
end Localizer
