/-!
# Basic — characters, and texts as lists of them

Sets of characters as intervals, blanks and surrogates; texts without the blanks at their ends, in the order of their
bytes, and cut at every separator.
-/
namespace Localizer
namespace Text

/-! ## Characters -/

def inRanges (ranges : List (Nat × Nat)) (n : Nat) : Bool := ranges.any fun r => Nat.ble r.1 n && Nat.ble n r.2

/-- **A blank**: a character with the property White_Space. -/
def isSpace (c : Char) : Bool :=
  let n := c.toNat
  (Nat.ble 9 n && Nat.ble n 13) || n == 0x20 || n == 0x85 || n == 0xA0 || n == 0x1680 ||
    (Nat.ble 0x2000 n && Nat.ble n 0x200A) || n == 0x2028 || n == 0x2029 || n == 0x202F || n == 0x205F || n == 0x3000

def trim (cs : List Char) : List Char := ((cs.dropWhile isSpace).reverse.dropWhile isSpace).reverse

def isHighSurrogate (n : Nat) : Bool := 0xD800 ≤ n && n < 0xDC00

def isLowSurrogate (n : Nat) : Bool := 0xDC00 ≤ n && n < 0xE000

def surrogatePair (high low : Nat) : Char := Char.ofNat (0x10000 + (high - 0xD800) * 0x400 + (low - 0xDC00))

theorem not_surrogate (c : Char) : isHighSurrogate c.toNat = false ∧ isLowSurrogate c.toNat = false := by
  have hc : c.toNat < 0xD800 ∨ 0xDFFF < c.toNat ∧ c.toNat < 0x110000 := c.valid
  simp only [isHighSurrogate, isLowSurrogate, Bool.and_eq_false_iff, decide_eq_false_iff_not]
  omega

/-! ## Order

UTF-8 keeps the order of code points, so comparing two texts byte by byte is comparing them character by character. -/

/-- **One text comes before another**: character by character, a beginning before its continuations. -/
def charsBefore : List Char → List Char → Bool
  | [], [] => false
  | [], _ :: _ => true
  | _ :: _, [] => false
  | a :: as, b :: bs => a.toNat < b.toNat || (a.toNat == b.toNat && charsBefore as bs)

def textBefore (a b : String) : Bool := charsBefore a.toList b.toList

/-! ## Pieces -/

def consPiece (c : Char) : List (List Char) → List (List Char)
  | [] => [[c]]
  | p :: ps => (c :: p) :: ps

/-- **The pieces between separators**; without a separator, the text itself is the only one. -/
def pieces (separator : Char) : List Char → List (List Char)
  | [] => [[]]
  | c :: cs => if c == separator then [] :: pieces separator cs else consPiece c (pieces separator cs)

def joined (separator : List Char) : List (List Char) → List Char
  | [] => []
  | [piece] => piece
  | piece :: pieces => piece ++ separator ++ joined separator pieces

end Text
end Localizer
