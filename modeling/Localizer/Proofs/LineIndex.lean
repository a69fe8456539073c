import Localizer.Text.Position
/-!
# LineIndex — finding the line of an offset

A scan goes through a text character by character and counts its line breaks (`Position.advance`).  Every offset of a
text stands on one of its lines, which the scan reaches (`exists_located`).  The offsets where the lines up to that one
start are the only ones that are not behind it, so halving finds it (`partitionPoint_eq`), and the index gives every
offset the position where the scan ends (`LineIndex.positionOf_eq_advance`).
-/
namespace Localizer
namespace Text

/-- **The position `n` bytes further on**, when the text from `p` on is `cs`; none inside a character. -/
def Position.advance : Position → List Char → Nat → Option Position
  | p, _, 0 => some p
  | p, [], _ + 1 => some p
  | p, '\r' :: '\n' :: cs, n + 1 =>
    if n = 0 then some ⟨p.line, p.character + 1⟩ else Position.advance ⟨p.line + 1, 0⟩ cs (n - 1)
  | p, '\r' :: cs, n + 1 => Position.advance ⟨p.line + 1, 0⟩ cs n
  | p, '\n' :: cs, n + 1 => Position.advance ⟨p.line + 1, 0⟩ cs n
  | p, c :: cs, n + 1 =>
    if c.utf8Size ≤ n + 1 then Position.advance ⟨p.line, p.character + unitsOf c⟩ cs (n + 1 - c.utf8Size) else none

theorem utf8Size_return : '\r'.utf8Size = 1 := by decide

theorem utf8Size_feed : '\n'.utf8Size = 1 := by decide

namespace Position

theorem advance_zero (p : Position) (cs : List Char) : p.advance cs 0 = some p := by
  cases cs <;> rfl

theorem advance_nil (p : Position) (n : Nat) : p.advance [] n = some p := by
  cases n <;> rfl

theorem advance_pair (p : Position) (cs : List Char) {n : Nat} (hn : 1 < n) :
    p.advance ('\r' :: '\n' :: cs) n = Position.advance ⟨p.line + 1, 0⟩ cs (n - 2) := by
  obtain ⟨k, rfl⟩ : ∃ k, n = k + 1 + 1 := ⟨n - 2, by omega⟩
  rw [Position.advance, if_neg (Nat.succ_ne_zero k)]
  rfl

theorem advance_return {cs : List Char} (hcs : ∀ rest, cs = '\n' :: rest → False) (p : Position) {n : Nat} (hn : 0 < n) :
    p.advance ('\r' :: cs) n = Position.advance ⟨p.line + 1, 0⟩ cs (n - 1) := by
  obtain ⟨k, rfl⟩ : ∃ k, n = k + 1 := ⟨n - 1, by omega⟩
  rw [Position.advance]
  · rfl
  · exact hcs

theorem advance_feed (p : Position) (cs : List Char) {n : Nat} (hn : 0 < n) :
    p.advance ('\n' :: cs) n = Position.advance ⟨p.line + 1, 0⟩ cs (n - 1) := by
  obtain ⟨k, rfl⟩ : ∃ k, n = k + 1 := ⟨n - 1, by omega⟩
  rw [Position.advance]
  rfl

theorem advance_char {c : Char} (hr : c ≠ '\r') (hf : c ≠ '\n') (p : Position) (cs : List Char) {n : Nat} (hn : 0 < n) :
    p.advance (c :: cs) n =
      if c.utf8Size ≤ n then Position.advance ⟨p.line, p.character + unitsOf c⟩ cs (n - c.utf8Size) else none := by
  obtain ⟨k, rfl⟩ : ∃ k, n = k + 1 := ⟨n - 1, by omega⟩
  rw [Position.advance] <;> simp_all

/-- **Past the end is the end.** -/
theorem advance_min (p : Position) (cs : List Char) (n : Nat) :
    p.advance cs (min n (byteLength cs)) = p.advance cs n := by
  fun_induction Position.advance p cs n with
  | case1 => rw [Nat.zero_min, advance_zero]
  | case2 => exact advance_nil ..
  | case3 p cs =>
    rw [Nat.min_eq_left (by simp only [byteLength, utf8Size_return]; omega), Position.advance, if_pos rfl]
  | case4 p cs n hne ih =>
    have hmin : min (n + 1) (byteLength ('\r' :: '\n' :: cs)) = min (n - 1) (byteLength cs) + 2 := by
      simp only [byteLength, utf8Size_return, utf8Size_feed]
      omega
    rw [hmin, advance_pair p cs (Nat.le_add_left ..), Nat.add_sub_cancel, ih]
  | case5 p cs n hcs ih =>
    have hmin : min (n + 1) (byteLength ('\r' :: cs)) = min n (byteLength cs) + 1 := by
      simp only [byteLength, utf8Size_return]
      omega
    rw [hmin, advance_return hcs p (by omega), Nat.add_sub_cancel, ih]
  | case6 p cs n ih =>
    have hmin : min (n + 1) (byteLength ('\n' :: cs)) = min n (byteLength cs) + 1 := by
      simp only [byteLength, utf8Size_feed]
      omega
    rw [hmin, advance_feed p cs (by omega), Nat.add_sub_cancel, ih]
  | case7 p c cs n _ hr hf hc ih =>
    have hpos := c.utf8Size_pos
    have hmin : min (n + 1) (byteLength (c :: cs)) = c.utf8Size + min (n + 1 - c.utf8Size) (byteLength cs) := by
      simp only [byteLength]
      omega
    rw [hmin, advance_char hr hf p cs (by omega), if_pos (Nat.le_add_right ..), Nat.add_sub_cancel_left, ih]
  | case8 p c cs n _ hr hf hc =>
    rw [Nat.min_eq_left (by simp only [byteLength]; omega), advance_char hr hf p cs (Nat.succ_pos n), if_neg hc]

end Position

/-! ## Lines -/

theorem splitLines_ne_nil (cs : List Char) : splitLines cs ≠ [] := by
  fun_cases splitLines cs with
  | case5 c cs =>
    cases h : splitLines cs <;> simp [consContent]
  | _ => exact List.cons_ne_nil _ _

theorem splitLines_char {c : Char} (hr : c ≠ '\r') (hn : c ≠ '\n') (cs : List Char) :
    splitLines (c :: cs) = consContent c (splitLines cs) := by
  rw [splitLines] <;> simp_all

/-! ## Exact fronts -/

theorem frontBytes_zero (cs : List Char) : frontBytes cs 0 = some [] := by
  cases cs <;> rfl

theorem frontBytes_cons (c : Char) (cs : List Char) (n : Nat) :
    frontBytes (c :: cs) (c.utf8Size + n) = (frontBytes cs n).map (c :: ·) := by
  have hpos := c.utf8Size_pos
  obtain ⟨k, hk⟩ : ∃ k, c.utf8Size + n = k + 1 := ⟨c.utf8Size + n - 1, by omega⟩
  rw [hk, frontBytes, if_pos (by omega), ← hk, Nat.add_sub_cancel_left]
  simp

theorem frontBytes_inside {c : Char} (cs : List Char) {n : Nat} (hn : 0 < n) (hlt : n < c.utf8Size) :
    frontBytes (c :: cs) n = none := by
  obtain ⟨k, rfl⟩ : ∃ k, n = k + 1 := ⟨n - 1, by omega⟩
  rw [frontBytes, if_neg (by omega)]
  simp

theorem frontBytes_append (front back : List Char) : frontBytes (front ++ back) (byteLength front) = some front := by
  induction front with
  | nil => exact frontBytes_zero back
  | cons c front ih => rw [List.cons_append, byteLength, frontBytes_cons, ih, Option.map_some]

/-- **What stands behind has no part in a front.** -/
theorem frontBytes_append_of_le {a : List Char} (b : List Char) {n : Nat} (hn : n ≤ byteLength a) :
    frontBytes (a ++ b) n = frontBytes a n := by
  induction a generalizing n with
  | nil =>
    obtain rfl := Nat.eq_zero_of_le_zero hn
    rw [frontBytes_zero, frontBytes_zero]
  | cons c a ih =>
    rcases Nat.eq_zero_or_pos n with rfl | hpos
    · rw [frontBytes_zero, frontBytes_zero]
    by_cases hc : c.utf8Size ≤ n
    · obtain ⟨m, rfl⟩ : ∃ m, n = c.utf8Size + m := ⟨n - c.utf8Size, by omega⟩
      rw [byteLength] at hn
      rw [List.cons_append, frontBytes_cons, frontBytes_cons, ih (by omega)]
    · rw [List.cons_append, frontBytes_inside _ hpos (by omega), frontBytes_inside _ hpos (by omega)]

theorem dropBytes_append : ∀ front rest : List Char, dropBytes (front ++ rest) (byteLength front) = some rest
  | [], rest => by cases rest <;> rfl
  | c :: front, rest => by
    have hc := c.utf8Size_pos
    rw [List.cons_append, byteLength, dropBytes, if_pos (by omega), Nat.add_sub_cancel_left]
    · exact dropBytes_append front rest
    · omega

/-! ## The line of an offset -/

/-- **The line of an offset**, in a text that starts at `p`: it starts behind the lines `pre`, and the scan counts its
units up to the offset. -/
structure Located (cs : List Char) (n : Nat) (p : Position) (pre : List Line) (l : Line) (post : List Line) : Prop where
  lines : splitLines cs = pre ++ l :: post
  start_le : byteLength (joinLines pre) ≤ n
  inside : n < byteLength (joinLines pre) + byteLength l.text ∨ post = [] ∧ l.ending = .nothing
  advance : p.advance cs n = (frontBytes l.text (n - byteLength (joinLines pre))).map fun x =>
    ⟨p.line + pre.length, (if pre.isEmpty then p.character else 0) + unitLength x⟩

namespace Located

variable {cs : List Char} {n : Nat} {p : Position} {pre post : List Line} {l : Line}

theorem behindBreak (e : Ending) (h : Located cs n ⟨p.line + 1, 0⟩ pre l post)
    (hsplit : splitLines (e.text ++ cs) = ⟨[], e⟩ :: splitLines cs)
    (hadvance : p.advance (e.text ++ cs) (byteLength e.text + n) = Position.advance ⟨p.line + 1, 0⟩ cs n) :
    Located (e.text ++ cs) (byteLength e.text + n) p (⟨[], e⟩ :: pre) l post := by
  have hstart : byteLength (joinLines (⟨[], e⟩ :: pre)) = byteLength e.text + byteLength (joinLines pre) := by
    simp [joinLines, Line.text]
  refine ⟨?_, ?_, ?_, ?_⟩
  · rw [hsplit, h.lines, List.cons_append]
  · rw [hstart]
    exact Nat.add_le_add_left h.start_le _
  · rw [hstart]
    exact h.inside.imp_left fun hlt => by omega
  · rw [hadvance, h.advance, hstart, Nat.add_sub_add_left]
    simp [Nat.add_assoc, Nat.add_comm 1]

/-- **The first line**, where it has a character that the offset does not pass. -/
theorem first {ls : List Line} (hsplit : splitLines cs = l :: ls) (hn : n < byteLength l.text)
    (hadvance : p.advance cs n = (frontBytes l.text n).map fun x => ⟨p.line, p.character + unitLength x⟩) :
    Located cs n p [] l ls :=
  ⟨hsplit, Nat.zero_le _, .inl (by simpa [joinLines, byteLength] using hn), by simpa [joinLines, byteLength] using hadvance⟩

theorem behindChar {c : Char} (hr : c ≠ '\r') (hf : c ≠ '\n')
    (h : Located cs n ⟨p.line, p.character + unitsOf c⟩ pre l post) :
    ∃ pre l post, Located (c :: cs) (c.utf8Size + n) p pre l post := by
  have hpos := c.utf8Size_pos
  have hsplit := splitLines_char hr hf cs
  have hadvance := Position.advance_char hr hf p cs (Nat.add_pos_left hpos n)
  rw [if_pos (Nat.le_add_right ..), Nat.add_sub_cancel_left, h.advance] at hadvance
  rw [h.lines] at hsplit
  cases pre with
  | nil =>
    have htext : byteLength (Line.text ⟨c :: l.content, l.ending⟩) = c.utf8Size + byteLength l.text := rfl
    refine ⟨[], ⟨c :: l.content, l.ending⟩, post, hsplit, Nat.zero_le _, ?_, ?_⟩
    · rw [htext]
      exact h.inside.imp_left fun hlt => by omega
    · have hfront : frontBytes (Line.text ⟨c :: l.content, l.ending⟩) (c.utf8Size + n) = (frontBytes l.text n).map (c :: ·) :=
        frontBytes_cons c l.text n
      simp only [joinLines, List.flatMap_nil, byteLength, Nat.sub_zero] at hadvance ⊢
      rw [hadvance, hfront, Option.map_map]
      simp [Function.comp_def, unitLength, Nat.add_assoc]
  | cons first pre =>
    have hstart : byteLength (joinLines (⟨c :: first.content, first.ending⟩ :: pre)) =
        c.utf8Size + byteLength (joinLines (first :: pre)) := by
      rw [show joinLines (⟨c :: first.content, first.ending⟩ :: pre) = c :: joinLines (first :: pre) from rfl, byteLength]
    refine ⟨⟨c :: first.content, first.ending⟩ :: pre, l, post, hsplit, ?_, ?_, ?_⟩
    · rw [hstart]
      exact Nat.add_le_add_left h.start_le _
    · rw [hstart]
      exact h.inside.imp_left fun hlt => by omega
    · rw [hadvance, hstart, Nat.add_sub_add_left]
      rfl

/-- **Within a line break**, or behind it. -/
theorem exists_break (e : Ending) (hn : n ≤ byteLength (e.text ++ cs))
    (hsplit : splitLines (e.text ++ cs) = ⟨[], e⟩ :: splitLines cs)
    (hwithin : n < byteLength e.text → p.advance (e.text ++ cs) n =
      (frontBytes e.text n).map fun x => ⟨p.line, p.character + unitLength x⟩)
    (hbehind : ∀ m, p.advance (e.text ++ cs) (byteLength e.text + m) = Position.advance ⟨p.line + 1, 0⟩ cs m)
    (hrest : ∀ {m}, m ≤ byteLength cs → ∃ pre l post, Located cs m ⟨p.line + 1, 0⟩ pre l post) :
    ∃ pre l post, Located (e.text ++ cs) n p pre l post := by
  by_cases hlt : n < byteLength e.text
  · exact ⟨_, _, _, .first hsplit hlt (hwithin hlt)⟩
  · obtain ⟨m, rfl⟩ : ∃ m, n = byteLength e.text + m := ⟨n - byteLength e.text, by omega⟩
    obtain ⟨pre, l, post, h⟩ := hrest (m := m) (by rw [byteLength_append] at hn; omega)
    exact ⟨_, _, _, h.behindBreak e hsplit (hbehind m)⟩

/-- **Within the first character of a line**, or behind it. -/
theorem exists_char {c : Char} (hr : c ≠ '\r') (hf : c ≠ '\n') (hn : n ≤ byteLength (c :: cs))
    (hrest : ∀ {m}, m ≤ byteLength cs → ∃ pre l post, Located cs m ⟨p.line, p.character + unitsOf c⟩ pre l post) :
    ∃ pre l post, Located (c :: cs) n p pre l post := by
  by_cases hc : c.utf8Size ≤ n
  · obtain ⟨m, rfl⟩ : ∃ m, n = c.utf8Size + m := ⟨n - c.utf8Size, by omega⟩
    obtain ⟨pre, l, post, h⟩ := hrest (Nat.le_of_add_le_add_left hn)
    exact h.behindChar hr hf
  · obtain ⟨l, ls, hlines⟩ := List.exists_cons_of_ne_nil (splitLines_ne_nil cs)
    have hsplit : splitLines (c :: cs) = ⟨c :: l.content, l.ending⟩ :: ls := by
      rw [splitLines_char hr hf, hlines]
      rfl
    refine ⟨_, _, _, .first hsplit (Nat.lt_of_lt_of_le (Nat.not_le.1 hc) (Nat.le_add_right ..)) ?_⟩
    rcases Nat.eq_zero_or_pos n with rfl | hpos
    · rw [Position.advance_zero, frontBytes_zero]
      rfl
    · rw [Position.advance_char hr hf p cs hpos, if_neg hc, Line.text, List.cons_append,
        frontBytes_inside _ hpos (Nat.not_le.1 hc)]
      rfl

end Located

/-- **Every offset of a text stands on one of its lines.** -/
theorem exists_located {cs : List Char} {n : Nat} (hn : n ≤ byteLength cs) (p : Position) :
    ∃ pre l post, Located cs n p pre l post := by
  induction cs using splitLines.induct generalizing n p with
  | case1 =>
    obtain rfl := Nat.eq_zero_of_le_zero hn
    exact ⟨[], ⟨[], .nothing⟩, [], rfl, Nat.zero_le _, .inr ⟨rfl, rfl⟩, rfl⟩
  | case2 cs ih =>
    have hlength : byteLength Ending.carriageFeed.text = 2 := by decide
    refine Located.exists_break .carriageFeed hn rfl (fun hlt => ?_) (fun m => ?_) fun hm => ih hm _
    · rw [hlength] at hlt
      obtain rfl | rfl : n = 0 ∨ n = 1 := by omega
      · rfl
      · rfl
    · rw [hlength, Nat.add_comm]
      exact Position.advance_pair p cs (Nat.le_add_left ..)
  | case3 cs hcs ih =>
    have hlength : byteLength Ending.carriage.text = 1 := by decide
    refine Located.exists_break .carriage hn ?_ (fun hlt => ?_) (fun m => ?_) fun hm => ih hm _
    · exact splitLines.eq_3 cs hcs
    · obtain rfl : n = 0 := by omega
      exact Position.advance_zero ..
    · rw [hlength, Nat.add_comm]
      exact Position.advance_return hcs p (Nat.succ_pos m)
  | case4 cs ih =>
    have hlength : byteLength Ending.feed.text = 1 := by decide
    refine Located.exists_break .feed hn rfl (fun hlt => ?_) (fun m => ?_) fun hm => ih hm _
    · obtain rfl : n = 0 := by omega
      rfl
    · rw [hlength, Nat.add_comm]
      exact Position.advance_feed p cs (Nat.succ_pos m)
  | case5 c cs _ hr hf ih => exact Located.exists_char hr hf hn fun hm => ih hm _

/-! ## The index -/

theorem lineStarts_append (n : Nat) (a b : List Line) :
    lineStarts n (a ++ b) = lineStarts n a ++ lineStarts (n + byteLength (joinLines a)) b := by
  induction a generalizing n with
  | nil => rfl
  | cons l a ih =>
    rw [List.cons_append, lineStarts, ih, lineStarts, List.cons_append, Nat.add_assoc, ← byteLength_append]
    rfl

theorem length_lineStarts (n : Nat) (ls : List Line) : (lineStarts n ls).length = ls.length := by
  induction ls generalizing n with
  | nil => rfl
  | cons l ls ih => rw [lineStarts, List.length_cons, ih, List.length_cons]

theorem mem_lineStarts {n m : Nat} {ls : List Line} (h : m ∈ lineStarts n ls) :
    n ≤ m ∧ m ≤ n + byteLength (joinLines ls) := by
  induction ls generalizing n with
  | nil => cases h
  | cons l ls ih =>
    have hlength : byteLength (joinLines (l :: ls)) = byteLength l.text + byteLength (joinLines ls) := byteLength_append ..
    rcases List.mem_cons.1 h with rfl | h
    · omega
    · have := ih h
      omega

/-- **Halving finds where numbers begin to be greater**, if they do so once. -/
theorem partitionPoint_eq {starts : Array Nat} {n k : Nat} (hk : ∀ i (hi : i < starts.size), starts[i] ≤ n ↔ i < k)
    {lo hi : Nat} (hhi : hi ≤ starts.size) (hlo : lo ≤ k) (hle : k ≤ hi) : partitionPoint starts n lo hi hhi = k := by
  fun_induction partitionPoint starts n lo hi hhi with
  | case1 lo hi hhi hlt mid hmid hstart ih => exact ih ((hk mid _).1 hstart) hle
  | case2 lo hi hhi hlt mid hmid hstart ih => exact ih hlo (Nat.not_lt.1 (mt (hk mid _).2 hstart))
  | case3 lo hi hhi hlt => omega

namespace Located

variable {cs : List Char} {n : Nat} {p : Position} {pre post : List Line} {l : Line}

theorem lineStarts_eq (h : Located cs n p pre l post) : lineStarts 0 (splitLines cs) =
    lineStarts 0 pre ++ byteLength (joinLines pre) :: lineStarts (byteLength (joinLines pre) + byteLength l.text) post := by
  rw [h.lines, lineStarts_append, lineStarts, Nat.zero_add]

theorem getElem?_start (h : Located cs n p pre l post) :
    (lineStarts 0 (splitLines cs))[pre.length]? = some (byteLength (joinLines pre)) := by
  rw [h.lineStarts_eq, List.getElem?_append_right (Nat.le_of_eq (length_lineStarts ..)), length_lineStarts, Nat.sub_self]
  rfl

/-- **The starts up to the line of an offset are not behind it**, and all others are. -/
theorem start_le_iff (h : Located cs n p pre l post) {i m : Nat} (hm : (lineStarts 0 (splitLines cs))[i]? = some m) :
    m ≤ n ↔ i < pre.length + 1 := by
  have hstart := h.start_le
  rcases Nat.lt_trichotomy i pre.length with hi | rfl | hi
  · rw [h.lineStarts_eq, List.getElem?_append_left (by rwa [length_lineStarts])] at hm
    have := (mem_lineStarts (List.mem_of_getElem? hm)).2
    omega
  · obtain rfl := Option.some.inj (h.getElem?_start.symm.trans hm)
    omega
  · obtain ⟨j, rfl⟩ : ∃ j, i = pre.length + (j + 1) := ⟨i - pre.length - 1, by omega⟩
    rw [h.lineStarts_eq, List.getElem?_append_right (by rw [length_lineStarts]; omega), length_lineStarts,
      Nat.add_sub_cancel_left, List.getElem?_cons_succ] at hm
    rcases h.inside with hlt | ⟨rfl, -⟩
    · have := (mem_lineStarts (List.mem_of_getElem? hm)).1
      omega
    · cases hm

theorem text_eq (h : Located cs n p pre l post) : cs = joinLines pre ++ (l.text ++ joinLines post) := by
  refine (joinLines_splitLines cs).symm.trans ?_
  rw [h.lines]
  simp [joinLines]

theorem sub_le (h : Located cs n p pre l post) (hn : n ≤ byteLength cs) :
    n - byteLength (joinLines pre) ≤ byteLength l.text := by
  rcases h.inside with hlt | ⟨rfl, -⟩
  · omega
  · rw [h.text_eq, show joinLines [] = [] from rfl, List.append_nil, byteLength_append] at hn
    omega

end Located

/-- **The index and the scan give every offset the same position.** -/
theorem LineIndex.positionOf_eq_advance (index : LineIndex) (n : Nat) :
    index.positionOf n = Position.advance ⟨0, 0⟩ index.text n := by
  have hle := Nat.min_le_right n (byteLength index.text)
  obtain ⟨pre, l, post, h⟩ := exists_located hle ⟨0, 0⟩
  have hpoint : partitionPoint index.starts (min n (byteLength index.text)) 0 index.starts.size (Nat.le_refl _) =
      pre.length + 1 := by
    refine partitionPoint_eq (fun i hi => h.start_le_iff ?_) _ (Nat.zero_le _) ?_
    · rw [← index.starts_eq, Array.getElem?_toList, Array.getElem?_eq_getElem hi]
    · rw [← Array.length_toList, index.starts_eq, length_lineStarts, h.lines]
      simp
  have hstart : index.starts[pre.length]? = some (byteLength (joinLines pre)) := by
    rw [← Array.getElem?_toList, index.starts_eq, h.getElem?_start]
  have hdrop : dropBytes index.text (byteLength (joinLines pre)) = some (l.text ++ joinLines post) := by
    rw [h.text_eq, dropBytes_append]
  rw [← Position.advance_min, h.advance, ← frontBytes_append_of_le (joinLines post) (h.sub_le hle)]
  simp only [LineIndex.positionOf, hpoint, Nat.add_sub_cancel, hstart, Option.bind_eq_bind, Option.bind_some, hdrop]
  cases frontBytes (l.text ++ joinLines post) (min n (byteLength index.text) - byteLength (joinLines pre)) with
  | none => rfl
  | some x => simp

theorem positionOf_eq_advance (cs : List Char) (n : Nat) : positionOf cs n = Position.advance ⟨0, 0⟩ cs n :=
  (LineIndex.ofText cs).positionOf_eq_advance n

end Text
end Localizer
