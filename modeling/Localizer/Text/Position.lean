import Localizer.Text.Units
import Localizer.Text.Lines
/-!
# Position — lines and columns of a text

A position is a line and a column in UTF-16 units, both counted from zero.  A `LineIndex` keeps the offsets where the
lines of a text start and finds the position of a byte offset: the line is the last one that starts at or before the
offset, so an offset between the `\r` and the `\n` of one line ending still belongs to the line that ends there.  Offsets
past the end mean the end.
-/
namespace Localizer
namespace Text

/-- **A place in a text**: line and column (UTF-16 units), from zero. -/
structure Position where
  line : Nat
  character : Nat
  deriving DecidableEq, Repr, Inhabited

def Position.before (a b : Position) : Bool :=
  a.line < b.line || (a.line == b.line && a.character < b.character)

def Position.upTo (a b : Position) : Bool := !b.before a

def Position.shown (p : Position) : String :=
  toString (p.line + 1) ++ ":" ++ toString (p.character + 1)

/-- **A stretch of text** between two positions, the second not included. -/
structure Region where
  start : Position
  stop : Position
  deriving DecidableEq, Repr, Inhabited

def Region.shown (r : Region) : String := r.start.shown ++ "-" ++ r.stop.shown

def Region.isSingleLine (r : Region) : Bool := r.start.line == r.stop.line

/-! ## Finding the line of an offset -/

def lineStarts : Nat → List Line → List Nat
  | _, [] => []
  | n, l :: ls => n :: lineStarts (n + byteLength l.text) ls

structure LineIndex where
  text : List Char
  starts : Array Nat
  starts_eq : starts.toList = lineStarts 0 (splitLines text)

def LineIndex.ofText (text : List Char) : LineIndex := ⟨text, (lineStarts 0 (splitLines text)).toArray, rfl⟩

/-- **How many numbers are at most `n`**, if those before `lo` are and those from `hi` on are not. -/
def partitionPoint (starts : Array Nat) (n lo hi : Nat) (hhi : hi ≤ starts.size) : Nat :=
  if h : lo < hi then
    let mid := (lo + hi) / 2
    have hmid : mid < hi := Nat.div_lt_of_lt_mul (by omega)
    if starts[mid] ≤ n then partitionPoint starts n (mid + 1) hi hhi
    else partitionPoint starts n lo mid (Nat.le_trans (Nat.le_of_lt hmid) hhi)
  else lo
termination_by hi - lo

/-- **The position of a byte offset**; none for an offset inside a character. -/
def LineIndex.positionOf (index : LineIndex) (offset : Nat) : Option Position := do
  let offset := min offset (byteLength index.text)
  let line := partitionPoint index.starts offset 0 index.starts.size (Nat.le_refl _) - 1
  let start ← index.starts[line]?
  let before ← frontBytes (← dropBytes index.text start) (offset - start)
  return ⟨line, unitLength before⟩

def positionOf (cs : List Char) (offset : Nat) : Option Position := (LineIndex.ofText cs).positionOf offset

def regionOf (cs : List Char) (lo hi : Nat) : Option Region := do
  return ⟨← positionOf cs lo, ← positionOf cs hi⟩

end Text
end Localizer
