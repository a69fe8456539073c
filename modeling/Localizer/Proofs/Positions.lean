import Localizer.Proofs.Splice
import Localizer.Proofs.LineIndex
/-!
# Positions — where byte offsets of a text stand in its lines

A text can be cut at an offset between two characters, but not within the two characters of one line ending.  There the
position of the offset lies within the content of its line, and counting the bytes before it gives the offset back
(`Document.positionOf_cut`).  So positions of such offsets are in the order of the offsets.
-/
namespace Localizer
namespace Text

/-- **An offset where a text can be cut**: between two characters, and not inside the ending `\r\n`. -/
def Cut (cs : List Char) (n : Nat) : Prop :=
  ∃ front back, cs = front ++ back ∧ byteLength front = n ∧ ¬ (front.getLast? = some '\r' ∧ back.head? = some '\n')

/-- **The front of a text ends within a line**: in a text that starts at `p`, behind the lines `pre` and the part `a` of
the next line's content. -/
def EndsWithin (front back : List Char) (p : Position) : Prop :=
  ∃ pre line post a b, splitLines (front ++ back) = pre ++ line :: post ∧ line.content = a ++ b ∧
    joinLines pre ++ a = front ∧ p.advance (front ++ back) (byteLength front) =
      some ⟨p.line + pre.length, (if pre.isEmpty then p.character else 0) + unitLength a⟩

/-- **A line is cut within its content**, since only the ending `\r\n` could be cut otherwise. -/
theorem Line.content_split {l : Line} {x back rest : List Char} (hx : l.text ++ rest = x ++ back)
    (hlt : byteLength x < byteLength l.text) (hcut : ¬ (x.getLast? = some '\r' ∧ back.head? = some '\n')) :
    ∃ b, l.content = x ++ b := by
  rw [Line.text, List.append_assoc] at hx
  rw [Line.text, byteLength_append] at hlt
  rcases Nat.le_total (byteLength x) (byteLength l.content) with hle | hle
  · obtain ⟨b, hb, -⟩ := append_split_of_byteLength_le hx.symm hle
    exact ⟨b, hb⟩
  obtain ⟨z, rfl, hz⟩ := append_split_of_byteLength_le hx hle
  rw [byteLength_append, Nat.add_lt_add_iff_left] at hlt
  cases z with
  | nil => exact ⟨[], by simp⟩
  | cons c z =>
    have hc := c.utf8Size_pos
    rw [byteLength] at hlt
    have hlength : byteLength Ending.feed.text = 1 ∧ byteLength Ending.carriage.text = 1 ∧
        byteLength Ending.carriageFeed.text = 2 := by decide
    cases he : l.ending with
    | nothing => exact absurd (he ▸ hlt) (Nat.not_lt_zero _)
    | feed | carriage =>
      rw [he] at hlt
      omega
    | carriageFeed =>
      rw [he] at hz hlt
      obtain ⟨rfl, htail⟩ := List.cons.inj (show '\r' :: '\n' :: rest = c :: (z ++ back) from hz)
      cases z with
      | nil => exact absurd ⟨by simp, congrArg List.head? htail.symm⟩ hcut
      | cons d z =>
        have hd := d.utf8Size_pos
        rw [byteLength] at hlt
        omega

/-- **A text can only be cut within lines.** -/
theorem endsWithin_of_cut (front back : List Char) (p : Position)
    (hcut : ¬ (front.getLast? = some '\r' ∧ back.head? = some '\n')) : EndsWithin front back p := by
  obtain ⟨pre, l, post, h⟩ := exists_located (show byteLength front ≤ byteLength (front ++ back) by simp) p
  obtain ⟨x, rfl, hx⟩ := append_split_of_byteLength_le h.text_eq.symm h.start_le
  obtain ⟨b, hb⟩ : ∃ b, l.content = x ++ b := by
    rcases h.inside with hlt | ⟨rfl, hending⟩
    · rw [byteLength_append, Nat.add_lt_add_iff_left] at hlt
      exact Line.content_split hx hlt fun hboth => hcut ⟨by rw [List.getLast?_append, hboth.1]; rfl, hboth.2⟩
    · exact ⟨back, by simpa [Line.text, hending, Ending.text, joinLines] using hx⟩
  refine ⟨pre, l, post, x, b, h.lines, hb, rfl, ?_⟩
  rw [h.advance, byteLength_append, Nat.add_sub_cancel_left, Line.text, hb, List.append_assoc, frontBytes_append,
    Option.map_some]

/-! ## Slices -/

theorem dropBytes_eq_some {cs : List Char} {n : Nat} {rest : List Char} (h : dropBytes cs n = some rest) :
    ∃ front, cs = front ++ rest ∧ byteLength front = n := by
  fun_induction dropBytes cs n with
  | case1 cs =>
    cases h
    exact ⟨[], rfl, rfl⟩
  | case2 => cases h
  | case3 c cs n _ hc ih =>
    obtain ⟨front, rfl, hn⟩ := ih h
    exact ⟨c :: front, rfl, by rw [byteLength]; omega⟩
  | case4 => cases h

theorem takeBytes_split (cs : List Char) (n : Nat) :
    byteLength (takeBytes cs n) ≤ n ∧ ∃ rest, cs = takeBytes cs n ++ rest := by
  fun_induction takeBytes cs n with
  | case1 => exact ⟨Nat.zero_le _, [], rfl⟩
  | case2 c cs n hc ih =>
    obtain ⟨hle, rest, hcs⟩ := ih
    refine ⟨?_, rest, ?_⟩
    · rw [byteLength]
      omega
    · rw [List.cons_append, ← hcs]
  | case3 c cs => exact ⟨Nat.zero_le _, c :: cs, rfl⟩

/-- **A slice that is not empty stands in the text** from its first offset on. -/
theorem sliceBytes_split {cs : List Char} {lo hi : Nat} (h : sliceBytes cs lo hi ≠ []) :
    byteLength (sliceBytes cs lo hi) ≤ hi - lo ∧
      ∃ front back, cs = front ++ (sliceBytes cs lo hi ++ back) ∧ byteLength front = lo := by
  unfold sliceBytes at h ⊢
  cases hd : dropBytes cs lo with
  | none => exact absurd (by rw [hd]; rfl) h
  | some rest =>
    obtain ⟨front, rfl, hlo⟩ := dropBytes_eq_some hd
    obtain ⟨hle, back, hrest⟩ := takeBytes_split rest (hi - lo)
    exact ⟨hle, front, back, by rw [Option.getD_some, ← hrest], hlo⟩

theorem takeBytes_append : ∀ front rest : List Char, takeBytes (front ++ rest) (byteLength front) = front
  | [], [] => rfl
  | [], c :: rest => by
    have hc := c.utf8Size_pos
    rw [List.nil_append, byteLength, takeBytes, if_neg (by omega)]
  | c :: front, rest => by
    rw [List.cons_append, byteLength, takeBytes, if_pos (by omega), Nat.add_sub_cancel_left, takeBytes_append]

theorem sliceBytes_append (front mid back : List Char) :
    sliceBytes (front ++ (mid ++ back)) (byteLength front) (byteLength front + byteLength mid) = mid := by
  rw [sliceBytes, dropBytes_append, Option.getD_some, Nat.add_sub_cancel_left, takeBytes_append]

end Text

namespace Document

open Text

theorem linesText_mapIdx (f : Nat → Line → DocumentLine) (hf : ∀ i l, (f i l).text = l.text) (ls : List Line) :
    linesText (ls.mapIdx f) = joinLines ls := by
  induction ls generalizing f with
  | nil => rfl
  | cons l ls ih =>
    rw [List.mapIdx_cons, linesText_cons, hf, ih _ fun i => hf (i + 1)]
    rfl

theorem text_ofText (text : List Char) (map : Option SourceMap) : (ofText text map).text = text :=
  (linesText_mapIdx _ (fun _ _ => rfl) _).trans (joinLines_splitLines text)

/-- **The position of a cut** lies within the content of a line, and its offset is that of the cut. -/
theorem positionOf_cut {text : List Char} {n : Nat} (h : Cut text n) (map : Option SourceMap) :
    ∃ p, positionOf text n = some p ∧ HoldsIn (ofText text map).lines p ∧ offsetIn (ofText text map).lines p = n := by
  obtain ⟨front, back, rfl, rfl, hcut⟩ := h
  obtain ⟨pre, line, post, a, b, hlines, hline, hfront, hp⟩ := endsWithin_of_cut front back ⟨0, 0⟩ hcut
  refine ⟨_, (positionOf_eq_advance ..).trans hp, ?_⟩
  unfold ofText
  rw [hlines, List.mapIdx_append, List.mapIdx_cons]
  refine ⟨holdsIn_of_split (by simp) rfl ?_, ?_⟩
  · simp [hline]
  · rw [offsetIn_of_split (by simp) rfl, linesText_mapIdx _ fun _ _ => rfl]
    simp [hline, ← hfront, takeUnits_append_left]

/-- **Cuts and their positions are in the same order.** -/
theorem positionOf_before {text : List Char} {m n : Nat} (hm : Cut text m) (hn : Cut text n) (hlt : m < n) {p q : Position}
    (hp : positionOf text m = some p) (hq : positionOf text n = some q) : p.before q = true := by
  obtain ⟨p', hp', hpin, hpoff⟩ := positionOf_cut hm none
  obtain ⟨q', hq', hqin, hqoff⟩ := positionOf_cut hn none
  obtain rfl : p' = p := Option.some.inj (hp'.symm.trans hp)
  obtain rfl : q' = q := Option.some.inj (hq'.symm.trans hq)
  cases hb : p'.before q' with
  | true => rfl
  | false =>
    have := offsetIn_mono hqin hpin (by simpa [Position.upTo] using hb)
    omega

end Document
end Localizer
