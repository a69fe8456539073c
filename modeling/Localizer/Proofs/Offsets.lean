import Mathlib.Algebra.GroupWithZero.Nat
import Localizer.Proofs.Positions
/-!
# Offsets — the positions of all offsets of a text

Every offset between two characters has a position, and a later offset has a later one (`exists_positionOf_before`); the
offset inside the ending `\r\n` counts to the line that it ends.  Anywhere else the position lies within the content of
its line, and counting the bytes before it gives the offset back.  So an offset of the text and a position of the
document mean the same place (`Document.positionOf_agrees`).
-/
namespace Localizer
namespace Text

theorem Boundary.le {cs : List Char} {n : Nat} (h : Boundary cs n) : n ≤ byteLength cs := by
  obtain ⟨front, back, rfl, rfl⟩ := h
  rw [byteLength_append]
  exact Nat.le_add_right ..

/-- **An offset strictly inside the ending `\r\n`.** -/
def InsideBreak (cs : List Char) (n : Nat) : Prop :=
  ∃ front back, cs = front ++ '\r' :: '\n' :: back ∧ byteLength front + 1 = n

theorem cut_of_boundary {cs : List Char} {n : Nat} (h : Boundary cs n) (hnot : ¬ InsideBreak cs n) : Cut cs n := by
  obtain ⟨front, back, rfl, rfl⟩ := h
  refine ⟨front, back, rfl, rfl, fun ⟨hr, hn⟩ => hnot ?_⟩
  obtain ⟨front, rfl⟩ := List.getLast?_eq_some_iff.1 hr
  obtain ⟨back, rfl⟩ := List.head?_eq_some_iff.1 hn
  exact ⟨front, back, by simp, by simp [byteLength, utf8Size_return]⟩

theorem Cut.boundary {cs : List Char} {n : Nat} (h : Cut cs n) : Boundary cs n := by
  obtain ⟨front, back, hcs, hfront, -⟩ := h
  exact ⟨front, back, hcs, hfront⟩

namespace Position

theorem upTo_advance {p q : Position} {cs : List Char} {n : Nat} (h : p.advance cs n = some q) : p.upTo q = true := by
  fun_induction Position.advance p cs n with
  | case1 | case2 | case3 =>
    cases h
    simp [upTo_iff]
  | case4 p cs n hne ih | case5 p cs n hne ih | case6 p cs n ih =>
    have hrest := ih h
    simp only [upTo_iff] at hrest ⊢
    omega
  | case7 p c cs n _ _ _ hle ih =>
    have hrest := ih h
    simp only [upTo_iff] at hrest ⊢
    omega
  | case8 => cases h

theorem before_of_next {p q : Position} {cs : List Char} {n : Nat}
    (h : Position.advance ⟨p.line + 1, 0⟩ cs n = some q) : p.before q = true := by
  have hle := upTo_advance h
  simp only [upTo_iff, before_iff] at hle ⊢
  omega

theorem before_of_right {p q : Position} {cs : List Char} {k n : Nat} (hk : 0 < k)
    (h : Position.advance ⟨p.line, p.character + k⟩ cs n = some q) : p.before q = true := by
  have hle := upTo_advance h
  simp only [upTo_iff, before_iff] at hle ⊢
  omega

/-- **Further on in a text is a later position.** -/
theorem before_advance {p q : Position} {cs : List Char} {n : Nat} (hn : 0 < n) (hle : n ≤ byteLength cs)
    (h : p.advance cs n = some q) : p.before q = true := by
  fun_cases splitLines cs with
  | case1 => exact absurd (Nat.lt_of_lt_of_le hn hle) (Nat.lt_irrefl 0)
  | case2 cs =>
    by_cases hone : n = 1
    · subst hone
      cases h
      simp [before_iff]
    · rw [advance_pair p cs (by omega)] at h
      exact before_of_next h
  | case3 cs hcs =>
    rw [advance_return hcs p hn] at h
    exact before_of_next h
  | case4 cs =>
    rw [advance_feed p cs hn] at h
    exact before_of_next h
  | case5 c cs _ hr hf =>
    rw [advance_char hr hf p cs hn] at h
    exact before_of_right (unitsOf_pos c) (Option.ite_none_right_eq_some.1 h).2

/-- **Of two offsets of a text, the later one has the later position**, also inside a line ending. -/
theorem advance_before {p a b : Position} {cs : List Char} {m n : Nat} (hlt : m < n) (hle : n ≤ byteLength cs)
    (ha : p.advance cs m = some a) (hb : p.advance cs n = some b) : a.before b = true := by
  have hn : 0 < n := Nat.zero_lt_of_lt hlt
  fun_induction Position.advance p cs m generalizing n with
  | case1 cs p =>
    cases ha
    exact before_advance hn hle hb
  | case2 p m => exact absurd (Nat.lt_of_lt_of_le hn hle) (Nat.lt_irrefl 0)
  | case3 p cs =>
    -- from inside the ending, the next offset is on the next line
    cases ha
    rw [advance_pair p cs hlt] at hb
    exact before_of_next (p := ⟨p.line, p.character + 1⟩) hb
  | case4 p cs m hne ih =>
    rw [advance_pair p cs (by omega)] at hb
    simp only [byteLength, utf8Size_return, utf8Size_feed] at hle
    exact ih (by omega) (by omega) ha hb (by omega)
  | case5 p cs m hcs ih =>
    rw [advance_return hcs p hn] at hb
    simp only [byteLength, utf8Size_return] at hle
    exact ih (by omega) (by omega) ha hb (by omega)
  | case6 p cs m ih =>
    rw [advance_feed p cs hn] at hb
    simp only [byteLength, utf8Size_feed] at hle
    exact ih (by omega) (by omega) ha hb (by omega)
  | case7 p c cs m _ hr hf hc ih =>
    rw [advance_char hr hf p cs hn] at hb
    obtain ⟨hc', hb⟩ := Option.ite_none_right_eq_some.1 hb
    simp only [byteLength] at hle
    exact ih (by omega) (by omega) ha hb (by omega)
  | case8 => cases ha

end Position

theorem exists_positionOf {text : List Char} {n : Nat} (h : Boundary text n) : ∃ p, positionOf text n = some p := by
  have hn := h.le
  obtain ⟨front, back, rfl, rfl⟩ := h
  obtain ⟨pre, l, post, h⟩ := exists_located hn ⟨0, 0⟩
  obtain ⟨x, rfl, hx⟩ := append_split_of_byteLength_le h.text_eq.symm h.start_le
  rw [positionOf_eq_advance, h.advance, ← frontBytes_append_of_le (joinLines post) (h.sub_le hn), hx, byteLength_append,
    Nat.add_sub_cancel_left, frontBytes_append]
  exact ⟨_, rfl⟩

theorem exists_positionOf_before {text : List Char} {m n : Nat} (hm : Boundary text m) (hn : Boundary text n)
    (hlt : m < n) : ∃ p q, positionOf text m = some p ∧ positionOf text n = some q ∧ p.before q = true := by
  obtain ⟨p, hp⟩ := exists_positionOf hm
  obtain ⟨q, hq⟩ := exists_positionOf hn
  refine ⟨p, q, hp, hq, ?_⟩
  rw [positionOf_eq_advance] at hp hq
  exact Position.advance_before hlt hn.le hp hq

theorem positionOf_inj {text : List Char} {m n : Nat} (hm : Boundary text m) (hn : Boundary text n)
    (h : positionOf text m = positionOf text n) : m = n := by
  have hne : ∀ {m n : Nat}, Boundary text m → Boundary text n → m < n → positionOf text m ≠ positionOf text n := by
    intro m n hm hn hlt heq
    obtain ⟨p, q, hp, hq, hbefore⟩ := exists_positionOf_before hm hn hlt
    obtain rfl : p = q := Option.some.inj (hp.symm.trans (heq.trans hq))
    simp [Position.before_iff] at hbefore
  rcases Nat.lt_trichotomy m n with hlt | heq | hlt
  · exact absurd h (hne hm hn hlt)
  · exact heq
  · exact absurd h.symm (hne hn hm hlt)

end Text

namespace Document

open Text

theorem exists_line_of_cut {text : List Char} {n : Nat} (h : Cut text n) (map : Option SourceMap) :
    ∃ p l content, positionOf text n = some p ∧ (ofText text map).lines[p.line]? = some l ∧ l.content = some content ∧
      p.character ≤ unitLength content ∧
      (((ofText text map).lines.take p.line).map fun l => byteLength l.text).sum + byteOffset content p.character = n := by
  have hsum : ∀ ls : List DocumentLine, (ls.map fun l => byteLength l.text).sum = byteLength (linesText ls) := by
    intro ls
    induction ls with
    | nil => rfl
    | cons l ls ih => rw [List.map_cons, List.sum_cons, ih, linesText_cons, byteLength_append]
  obtain ⟨p, hp, ⟨content, hcontent, hle⟩, hoffset⟩ := positionOf_cut h map
  obtain ⟨l, hl, hlc⟩ := Option.bind_eq_some_iff.1 hcontent
  refine ⟨p, l, content, hp, hl, hlc, hle, ?_⟩
  rw [hsum, ← hoffset, offsetIn, hl]
  simp [DocumentLine.contentOrEmpty, hlc]

/-- **Positions and offsets agree**: the positions of an index are in the order of the offsets, and the bytes of the lines
before a position and of the content up to it are those before the offset. -/
theorem positionOf_agrees (text : List Char) (map : Option SourceMap) :
    (∀ m n, Boundary text m → Boundary text n → m < n →
      ∃ p q, (LineIndex.ofText text).positionOf m = some p ∧ (LineIndex.ofText text).positionOf n = some q ∧
        p.before q = true) ∧
    ∀ n, Boundary text n → ¬ InsideBreak text n →
      ∃ p l content, (LineIndex.ofText text).positionOf n = some p ∧ (ofText text map).lines[p.line]? = some l ∧
        l.content = some content ∧ p.character ≤ unitLength content ∧
        (((ofText text map).lines.take p.line).map fun l => byteLength l.text).sum +
          byteOffset content p.character = n :=
  ⟨fun _ _ hm hn hlt => exists_positionOf_before hm hn hlt,
    fun _ hn hnot => exists_line_of_cut (cut_of_boundary hn hnot) map⟩

theorem positionOf_agrees_break :
    Boundary ['a', '😀', '\r', '\n', 'b'] 6 ∧ Boundary ['a', '😀', '\r', '\n', 'b'] 7 ∧
      InsideBreak ['a', '😀', '\r', '\n', 'b'] 6 ∧ ¬ InsideBreak ['a', '😀', '\r', '\n', 'b'] 7 ∧
      (∃ p q, (LineIndex.ofText ['a', '😀', '\r', '\n', 'b']).positionOf 6 = some p ∧
        (LineIndex.ofText ['a', '😀', '\r', '\n', 'b']).positionOf 7 = some q ∧ p.before q = true) ∧
      ∃ p l content, (LineIndex.ofText ['a', '😀', '\r', '\n', 'b']).positionOf 7 = some p ∧
        (ofText ['a', '😀', '\r', '\n', 'b'] none).lines[p.line]? = some l ∧ l.content = some content ∧
        p.character ≤ unitLength content ∧
        (((ofText ['a', '😀', '\r', '\n', 'b'] none).lines.take p.line).map fun l => byteLength l.text).sum +
          byteOffset content p.character = 7 := by
  have hsix : Boundary ['a', '😀', '\r', '\n', 'b'] 6 := ⟨['a', '😀', '\r'], ['\n', 'b'], rfl, by decide⟩
  have hseven : Boundary ['a', '😀', '\r', '\n', 'b'] 7 := ⟨['a', '😀', '\r', '\n'], ['b'], rfl, by decide⟩
  have hnot : ¬ InsideBreak ['a', '😀', '\r', '\n', 'b'] 7 := by
    rintro ⟨front, back, hcs, hfront⟩
    have hsame : ['a', '😀', '\r'] ++ ['\n', 'b'] = front ++ '\r' :: '\n' :: back := hcs
    obtain ⟨-, hback⟩ := append_inj_of_byteLength hsame (by rw [Nat.succ.inj hfront]; decide)
    cases hback
  refine ⟨hsix, hseven, ⟨['a', '😀'], ['b'], rfl, by decide⟩, hnot, ?_, ?_⟩
  · exact (positionOf_agrees _ none).1 6 7 hsix hseven (by decide)
  · exact (positionOf_agrees _ none).2 7 hseven hnot

end Document
end Localizer
