/-!
# Units — the two measures of a text

A text is a list of characters.  Files count it in UTF-8 bytes, editors and source maps in UTF-16 units.  `byteLength`
and `unitLength` are the two measures; `takeUnits`, `dropUnits` and `byteOffset` cut a text at a column of UTF-16 units.
A column inside a character (between the two units of a surrogate pair) means the start of that character, and a column
past the end means the end.
-/
namespace Localizer
namespace Text

def unitsOf (c : Char) : Nat := if c.toNat < 0x10000 then 1 else 2

theorem unitsOf_pos (c : Char) : 0 < unitsOf c := by
  unfold unitsOf; split <;> decide

def byteLength : List Char → Nat
  | [] => 0
  | c :: cs => c.utf8Size + byteLength cs

def unitLength : List Char → Nat
  | [] => 0
  | c :: cs => unitsOf c + unitLength cs

/-- **The characters that fit in the first `n` units.** -/
def takeUnits : List Char → Nat → List Char
  | [], _ => []
  | c :: cs, n => if unitsOf c ≤ n then c :: takeUnits cs (n - unitsOf c) else []

def dropUnits : List Char → Nat → List Char
  | [], _ => []
  | c :: cs, n => if unitsOf c ≤ n then dropUnits cs (n - unitsOf c) else c :: cs

/-- **Byte offset of a column**: the bytes of the characters that fit in the first `n` units. -/
def byteOffset : List Char → Nat → Nat
  | [], _ => 0
  | c :: cs, n => if unitsOf c ≤ n then c.utf8Size + byteOffset cs (n - unitsOf c) else 0

@[simp] theorem byteLength_append (a b : List Char) : byteLength (a ++ b) = byteLength a + byteLength b := by
  induction a with
  | nil => simp [byteLength]
  | cons c a ih => simp [byteLength, ih, Nat.add_assoc]

@[simp] theorem unitLength_append (a b : List Char) : unitLength (a ++ b) = unitLength a + unitLength b := by
  induction a with
  | nil => simp [unitLength]
  | cons c a ih => simp [unitLength, ih, Nat.add_assoc]

theorem takeUnits_append_dropUnits (cs : List Char) (n : Nat) : takeUnits cs n ++ dropUnits cs n = cs := by
  induction cs generalizing n with
  | nil => rfl
  | cons c cs ih =>
    unfold takeUnits dropUnits
    split
    · simp [ih]
    · rfl

theorem byteOffset_eq (cs : List Char) (n : Nat) : byteOffset cs n = byteLength (takeUnits cs n) := by
  induction cs generalizing n with
  | nil => rfl
  | cons c cs ih =>
    unfold byteOffset takeUnits
    split
    · simp [byteLength, ih]
    · rfl

/-- **An offset between two characters**, or at one end of the text. -/
def Boundary (cs : List Char) (n : Nat) : Prop := ∃ front back, cs = front ++ back ∧ byteLength front = n

theorem append_inj_of_byteLength : ∀ {a b x y : List Char}, a ++ x = b ++ y → byteLength a = byteLength b →
    a = b ∧ x = y
  | [], [], _, _, h, _ => ⟨rfl, h⟩
  | [], c :: b, _, _, _, hl => by
    have := c.utf8Size_pos
    simp only [byteLength] at hl
    omega
  | c :: a, [], _, _, _, hl => by
    have := c.utf8Size_pos
    simp only [byteLength] at hl
    omega
  | c :: a, d :: b, _, _, h, hl => by
    simp only [List.cons_append, List.cons.injEq] at h
    obtain ⟨rfl, h⟩ := h
    simp only [byteLength, Nat.add_left_cancel_iff] at hl
    obtain ⟨rfl, hxy⟩ := append_inj_of_byteLength h hl
    exact ⟨rfl, hxy⟩

theorem append_split_of_byteLength_le : ∀ {a b x y : List Char}, a ++ x = b ++ y → byteLength a ≤ byteLength b →
    ∃ m, b = a ++ m ∧ x = m ++ y
  | [], b, _, _, h, _ => ⟨b, rfl, h⟩
  | c :: a, [], _, _, _, hl => by
    have := c.utf8Size_pos
    simp only [byteLength] at hl
    omega
  | c :: a, d :: b, _, _, h, hl => by
    simp only [List.cons_append, List.cons.injEq] at h
    obtain ⟨rfl, h⟩ := h
    simp only [byteLength, Nat.add_le_add_iff_left] at hl
    obtain ⟨m, rfl, hx⟩ := append_split_of_byteLength_le h hl
    exact ⟨m, rfl, hx⟩

/-- **The text from byte `n` on**, if a character starts there or the text ends there. -/
def dropBytes : List Char → Nat → Option (List Char)
  | cs, 0 => some cs
  | [], _ => none
  | c :: cs, n => if c.utf8Size ≤ n then dropBytes cs (n - c.utf8Size) else none

def takeBytes : List Char → Nat → List Char
  | [], _ => []
  | c :: cs, n => if c.utf8Size ≤ n then c :: takeBytes cs (n - c.utf8Size) else []

/-- **The text before byte `n`**, if a character ends there. -/
def frontBytes : List Char → Nat → Option (List Char)
  | _, 0 => some []
  | [], _ => none
  | c :: cs, n => if c.utf8Size ≤ n then (frontBytes cs (n - c.utf8Size)).map (c :: ·) else none

def sliceBytes (cs : List Char) (lo hi : Nat) : List Char :=
  takeBytes ((dropBytes cs lo).getD []) (hi - lo)

end Text
end Localizer
