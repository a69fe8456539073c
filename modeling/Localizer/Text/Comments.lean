/-!
# Comments — removed from a text, strings left alone

A text is read from the left.  A double-quoted string is kept whole, a block comment and a line comment are dropped, and
any other character is kept.  A string or a block comment that does not end is no such piece: its first character is
kept, and reading goes on with the next one.
-/
namespace Localizer
namespace Text

/-- **A string from after its opening quote**: the text up to the closing quote, which is part of it, and the rest.  A
backslash takes the next character with it, which must not be a line feed. -/
def closeString : List Char → Option (List Char × List Char)
  | [] => none
  | '"' :: cs => some (['"'], cs)
  | ['\\'] => none
  | '\\' :: c :: cs => if c == '\n' then none else (closeString cs).map fun p => ('\\' :: c :: p.1, p.2)
  | c :: cs => (closeString cs).map fun p => (c :: p.1, p.2)

def closeBlock : List Char → Option (List Char)
  | [] => none
  | '*' :: '/' :: cs => some cs
  | _ :: cs => closeBlock cs

def closeLine (cs : List Char) : List Char := cs.dropWhile fun c => c != '\r' && c != '\n'

theorem length_closeString {cs : List Char} {p : List Char × List Char} (h : closeString cs = some p) :
    p.2.length < cs.length := by
  fun_induction closeString cs generalizing p with
  | case1 => simp at h
  | case2 cs => cases h; simp
  | case3 => simp at h
  | case4 c cs => simp at h
  | case5 =>
    rename_i ih
    obtain ⟨q, hq, rfl⟩ := Option.map_eq_some_iff.1 h
    have := ih hq
    simp only [List.length_cons]
    omega
  | case6 =>
    rename_i ih
    obtain ⟨q, hq, rfl⟩ := Option.map_eq_some_iff.1 h
    have := ih hq
    simp only [List.length_cons]
    omega

theorem length_closeBlock {cs rest : List Char} (h : closeBlock cs = some rest) : rest.length < cs.length := by
  fun_induction closeBlock cs with
  | case1 => simp at h
  | case2 cs => cases h; simp only [List.length_cons]; omega
  | case3 c cs _ ih =>
    have := ih h
    simp only [List.length_cons]
    omega

theorem length_closeLine (cs : List Char) : (closeLine cs).length ≤ cs.length :=
  (List.dropWhile_suffix _).length_le

/-- **One piece of a text**: what is kept of it, and the rest. -/
def nextPiece (c : Char) (cs : List Char) : List Char × List Char :=
  if c == '"' then
    match closeString cs with
    | some (body, rest) => (c :: body, rest)
    | none => ([c], cs)
  else if c == '/' then
    match cs with
    | '*' :: after =>
      match closeBlock after with
      | some rest => ([], rest)
      | none => ([c], cs)
    | '/' :: after => ([], closeLine after)
    | _ => ([c], cs)
  else ([c], cs)

theorem length_nextPiece (c : Char) (cs : List Char) : (nextPiece c cs).2.length ≤ cs.length := by
  unfold nextPiece
  split
  · split
    · rename_i body rest h
      have := length_closeString h
      exact Nat.le_of_lt this
    · exact Nat.le_refl _
  · split
    · split
      · split
        · rename_i after _ rest h
          have := length_closeBlock h
          simp only [List.length_cons]
          omega
        · exact Nat.le_refl _
      · rename_i after
        have := length_closeLine after
        simp only [List.length_cons]
        omega
      · exact Nat.le_refl _
    · exact Nat.le_refl _

def stripComments : List Char → List Char
  | [] => []
  | c :: cs => (nextPiece c cs).1 ++ stripComments (nextPiece c cs).2
termination_by cs => cs.length
decreasing_by
  have := length_nextPiece c cs
  simp only [List.length_cons]
  omega

end Text
end Localizer
