import Localizer.Proofs.Positions
/-!
# Cuts — positions in a text that is edited

`Position.over` follows a text from a position to its end.  What stands behind has no part in it, unless a line ending is
cut in two (`over_append`), and from another position on the same text leads as far (`over_carry`).  So when some
characters of a text are replaced by others without line breaks, the positions before stay (`CutAt.before`), and those
behind are shifted along the line where the replaced characters ended, or by lines only (`CutAt.behind`).
-/
namespace Localizer
namespace Text

/-- **The position behind a text** that starts at `p`. -/
def Position.over : Position → List Char → Position
  | p, [] => p
  | p, '\r' :: '\n' :: cs => Position.over ⟨p.line + 1, 0⟩ cs
  | p, '\r' :: cs => Position.over ⟨p.line + 1, 0⟩ cs
  | p, '\n' :: cs => Position.over ⟨p.line + 1, 0⟩ cs
  | p, c :: cs => Position.over ⟨p.line, p.character + unitsOf c⟩ cs

/-- **No line ending stands across two texts.** -/
def Parted (a b : List Char) : Prop := ¬ (a.getLast? = some '\r' ∧ b.head? = some '\n')

/-- **A text without line breaks.** -/
def Unbroken (cs : List Char) : Prop := '\r' ∉ cs ∧ '\n' ∉ cs

theorem Parted.cons {c : Char} {a b : List Char} (h : Parted a b) (ha : a = [] → c = '\r' → b.head? ≠ some '\n') :
    Parted (c :: a) b := by
  rintro ⟨hr, hn⟩
  cases a with
  | nil => exact ha rfl (Option.some.inj hr) hn
  | cons d a => exact h ⟨by simpa using hr, hn⟩

theorem Parted.of_cons {c : Char} {a b : List Char} (h : Parted (c :: a) b) : Parted a b := by
  rintro ⟨hr, hn⟩
  refine h ⟨?_, hn⟩
  rw [List.getLast?_cons, hr]
  rfl

theorem Position.over_return {cs : List Char} (h : cs.head? ≠ some '\n') (p : Position) :
    p.over ('\r' :: cs) = Position.over ⟨p.line + 1, 0⟩ cs := by
  cases cs with
  | nil => rfl
  | cons c cs =>
    rw [Position.over]
    rintro cs' ⟨⟩
    exact h rfl

theorem Position.over_char {c : Char} (hr : c ≠ '\r') (hn : c ≠ '\n') (cs : List Char) (p : Position) :
    p.over (c :: cs) = Position.over ⟨p.line, p.character + unitsOf c⟩ cs := by
  rw [Position.over] <;> simp_all

theorem Position.over_append (p : Position) {a b : List Char} (h : Parted a b) : p.over (a ++ b) = (p.over a).over b := by
  induction a using splitLines.induct generalizing p with
  | case1 => rfl
  | case2 a ih => exact ih _ h.of_cons.of_cons
  | case3 a hne ih =>
    have hhead : (a ++ b).head? ≠ some '\n' := by
      cases a with
      | nil => exact fun hn => h ⟨rfl, hn⟩
      | cons c a =>
        intro hc
        obtain rfl : c = '\n' := Option.some.inj hc
        exact hne a rfl
    have hhead' : a.head? ≠ some '\n' := by
      cases a with
      | nil => exact fun hn => by cases hn
      | cons c a => exact hhead
    rw [List.cons_append, over_return hhead, over_return hhead', ih _ h.of_cons]
  | case4 a ih => exact ih _ h.of_cons
  | case5 c a _ hr hn ih => rw [List.cons_append, over_char hr hn, over_char hr hn, ih _ h.of_cons]

theorem Position.over_unbroken (p : Position) {cs : List Char} (h : Unbroken cs) :
    p.over cs = ⟨p.line, p.character + unitLength cs⟩ := by
  induction cs generalizing p with
  | nil => rfl
  | cons c cs ih =>
    obtain ⟨hr, hn⟩ := h
    rw [List.mem_cons, not_or] at hr hn
    rw [over_char (Ne.symm hr.1) (Ne.symm hn.1), ih _ ⟨hr.2, hn.2⟩, unitLength, Nat.add_assoc]

theorem Position.line_le_over (p : Position) (cs : List Char) : p.line ≤ (p.over cs).line := by
  fun_induction Position.over p cs with
  | case1 => exact Nat.le_refl _
  | case2 _ _ ih | case3 _ _ _ ih | case4 _ _ ih => exact Nat.le_of_succ_le ih
  | case5 _ _ _ _ _ _ ih => exact ih

/-- **One text from two positions** leads as many lines down, and on the same line as many columns further. -/
theorem Position.over_carry (p q : Position) (cs : List Char) :
    (q.over cs).line + p.line = (p.over cs).line + q.line ∧
      ((p.over cs).line = p.line → (q.over cs).character + p.character = (p.over cs).character + q.character) ∧
      ((p.over cs).line ≠ p.line → (q.over cs).character = (p.over cs).character) := by
  induction cs using splitLines.induct generalizing p q with
  | case1 => exact ⟨Nat.add_comm .., fun _ => Nat.add_comm .., fun h => absurd rfl h⟩
  | case2 cs ih | case4 cs ih =>
    -- behind a line break both go on from column zero
    have hline := Position.line_le_over ⟨p.line + 1, 0⟩ cs
    have hrest := ih ⟨p.line + 1, 0⟩ ⟨q.line + 1, 0⟩
    simp only [Position.over] at hline hrest ⊢
    omega
  | case3 cs hne ih =>
    have hhead : cs.head? ≠ some '\n' := by
      cases cs with
      | nil => exact fun h => by cases h
      | cons c cs => exact fun h => hne cs (by rw [Option.some.inj h])
    have hline := Position.line_le_over ⟨p.line + 1, 0⟩ cs
    have hrest := ih ⟨p.line + 1, 0⟩ ⟨q.line + 1, 0⟩
    rw [over_return hhead, over_return hhead]
    simp only at hline hrest ⊢
    omega
  | case5 c cs _ hr hn ih =>
    have hrest := ih ⟨p.line, p.character + unitsOf c⟩ ⟨q.line, q.character + unitsOf c⟩
    rw [over_char hr hn, over_char hr hn]
    simp only at hrest ⊢
    omega

/-! ## Positions and cuts -/

/-- **A text goes on behind some lines and a part of the next one**, there is no line ending across, and this is where
the lines and the part lead. -/
def Reached (cs : List Char) (p : Position) (pre : List Line) (x : List Char) : Prop :=
  ∃ back, cs = joinLines pre ++ x ++ back ∧ Parted (joinLines pre ++ x) back ∧
    p.over (joinLines pre ++ x) = ⟨p.line + pre.length, (if pre.isEmpty then p.character else 0) + unitLength x⟩

theorem reached_nil (cs : List Char) (p : Position) {x y : List Char} (h : [] = x ++ y) : Reached cs p [] x := by
  obtain rfl := (List.append_eq_nil_iff.1 h.symm).1
  exact ⟨cs, rfl, fun hboth => (by cases hboth.1), rfl⟩

theorem Reached.behindBreak {cs : List Char} {p : Position} {pre : List Line} {x : List Char} (e : Ending)
    (h : Reached cs ⟨p.line + 1, 0⟩ pre x)
    (hbreak : ∀ a back, cs = a ++ back → Parted a back →
      Parted (e.text ++ a) back ∧ p.over (e.text ++ a) = Position.over ⟨p.line + 1, 0⟩ a) :
    Reached (e.text ++ cs) p (⟨[], e⟩ :: pre) x := by
  obtain ⟨back, hcs, hparted, hover⟩ := h
  obtain ⟨hparted', hover'⟩ := hbreak _ back hcs hparted
  have hjoin : joinLines (⟨[], e⟩ :: pre) ++ x = e.text ++ (joinLines pre ++ x) := by
    rw [← List.append_assoc]
    rfl
  refine ⟨back, ?_, ?_, ?_⟩
  · rw [hjoin, List.append_assoc, ← hcs]
  · rw [hjoin]
    exact hparted'
  · rw [hjoin, hover', hover]
    simp [Nat.add_assoc, Nat.add_comm 1]

theorem Reached.behindChar {cs : List Char} {p : Position} {pre : List Line} {x : List Char} {c : Char} (hr : c ≠ '\r')
    (hn : c ≠ '\n') {pre' : List Line} {x' : List Char} (hjoin : joinLines pre' ++ x' = c :: (joinLines pre ++ x))
    (hempty : pre'.length = pre.length) (hx : pre = [] → unitLength x' = unitsOf c + unitLength x)
    (hx' : pre ≠ [] → unitLength x' = unitLength x) (h : Reached cs ⟨p.line, p.character + unitsOf c⟩ pre x) :
    Reached (c :: cs) p pre' x' := by
  obtain ⟨back, hcs, hparted, hover⟩ := h
  refine ⟨back, ?_, ?_, ?_⟩
  · rw [hjoin, List.cons_append, ← hcs]
  · rw [hjoin]
    exact hparted.cons fun _ h => absurd h hr
  · rw [hjoin, Position.over_char hr hn, hover, hempty]
    cases pre with
    | nil =>
      obtain rfl := List.length_eq_zero_iff.1 hempty
      simp [hx rfl, Nat.add_assoc]
    | cons l pre =>
      cases pre' with
      | nil => cases hempty
      | cons l' pre' => simp [hx' (List.cons_ne_nil _ _)]

/-- **Places within the lines of a text are reached.** -/
theorem reached_of_split (cs : List Char) (p : Position) {pre post : List Line} {line : Line} {x y : List Char}
    (hlines : splitLines cs = pre ++ line :: post) (hline : line.content = x ++ y) : Reached cs p pre x := by
  induction cs using splitLines.induct generalizing p pre line x with
  | case1 =>
    cases pre with
    | nil =>
      obtain ⟨rfl, -⟩ := List.cons.inj hlines
      exact reached_nil _ p hline
    | cons l pre => simp [splitLines] at hlines
  | case2 cs ih =>
    cases pre with
    | nil =>
      obtain ⟨rfl, -⟩ := List.cons.inj hlines
      exact reached_nil _ p hline
    | cons l pre =>
      obtain ⟨rfl, hrest⟩ := List.cons.inj hlines
      refine (ih _ hrest hline).behindBreak .carriageFeed fun a back _ h => ⟨?_, rfl⟩
      exact (h.cons fun _ hc => absurd hc (by decide)).cons fun ha _ => absurd ha (List.cons_ne_nil _ _)
  | case3 cs hne ih =>
    have hsplit : splitLines ('\r' :: cs) = ⟨[], .carriage⟩ :: splitLines cs := by
      rw [splitLines]
      exact hne
    rw [hsplit] at hlines
    cases pre with
    | nil =>
      obtain ⟨rfl, -⟩ := List.cons.inj hlines
      exact reached_nil _ p hline
    | cons l pre =>
      obtain ⟨rfl, hrest⟩ := List.cons.inj hlines
      refine (ih _ hrest hline).behindBreak .carriage fun a back hcs h => ⟨?_, ?_⟩
      · -- behind the bare `\r` no `\n` follows
        refine h.cons fun ha _ hhead => ?_
        subst ha
        cases back with
        | nil => cases hhead
        | cons c back => exact hne back (by rw [hcs, List.nil_append, Option.some.inj hhead])
      · refine Position.over_return (fun hhead => ?_) p
        cases a with
        | nil => cases hhead
        | cons c a => exact hne (a ++ back) (by rw [hcs, List.cons_append, Option.some.inj hhead])
  | case4 cs ih =>
    cases pre with
    | nil =>
      obtain ⟨rfl, -⟩ := List.cons.inj hlines
      exact reached_nil _ p hline
    | cons l pre =>
      obtain ⟨rfl, hrest⟩ := List.cons.inj hlines
      refine (ih _ hrest hline).behindBreak .feed fun a back _ h => ⟨?_, rfl⟩
      exact h.cons fun _ hc => absurd hc (by decide)
  | case5 c cs _ hr hn ih =>
    obtain ⟨first, rest, hfirst⟩ := List.exists_cons_of_ne_nil (splitLines_ne_nil cs)
    have hsplit : splitLines (c :: cs) = ⟨c :: first.content, first.ending⟩ :: rest := by
      rw [splitLines_char hr hn, hfirst]
      rfl
    rw [hsplit] at hlines
    cases pre with
    | nil =>
      obtain ⟨rfl, rfl⟩ := List.cons.inj hlines
      cases x with
      | nil => exact reached_nil _ p (y := []) rfl
      | cons d x =>
        obtain ⟨rfl, hx⟩ := List.cons.inj hline
        exact (ih ⟨p.line, p.character + unitsOf c⟩ hfirst hx).behindChar hr hn rfl rfl (fun _ => rfl) (absurd rfl)
    | cons l pre =>
      obtain ⟨rfl, rfl⟩ := List.cons.inj hlines
      have hrest : Reached cs ⟨p.line, p.character + unitsOf c⟩ (first :: pre) x := ih _ hfirst hline
      refine hrest.behindChar hr hn ?_ ?_ (fun h => by cases h) (fun _ => rfl)
      · rfl
      · rfl

/-- **A position where a text can be cut**, and its offset. -/
def CutAt (cs : List Char) (n : Nat) (q : Position) : Prop :=
  ∃ a b, cs = a ++ b ∧ byteLength a = n ∧ Parted a b ∧ Position.over ⟨0, 0⟩ a = q

/-- **A cut is found at its position.** -/
theorem CutAt.positionOf {cs : List Char} {n : Nat} {q : Position} (h : CutAt cs n q) : positionOf cs n = some q := by
  obtain ⟨a, b, rfl, rfl, hparted, rfl⟩ := h
  obtain ⟨pre, line, post, x, y, hlines, hline, rfl, hadvance⟩ := endsWithin_of_cut a b ⟨0, 0⟩ hparted
  obtain ⟨-, -, -, hover⟩ := reached_of_split (joinLines pre ++ x ++ b) ⟨0, 0⟩ hlines hline
  rw [positionOf_eq_advance, hadvance, hover]

theorem CutAt.of_front {a b : List Char} {q : Position} (h : CutAt (a ++ b) (byteLength a) q) :
    Position.over ⟨0, 0⟩ a = q ∧ Parted a b := by
  obtain ⟨a', b', heq, hlength, hparted, hover⟩ := h
  obtain ⟨rfl, rfl⟩ := append_inj_of_byteLength heq hlength.symm
  exact ⟨hover, hparted⟩

/-! ## Around an edit -/

theorem Parted.of_head {a b b' : List Char} (h : Parted a b) (hb : b'.head? = b.head?) : Parted a b' :=
  fun hboth => h ⟨hboth.1, hb ▸ hboth.2⟩

theorem getLast?_append_of_ne_nil (a : List Char) {b : List Char} (hb : b ≠ []) : (a ++ b).getLast? = b.getLast? := by
  rw [List.getLast?_append, List.getLast?_eq_some_getLast hb]
  rfl

theorem Unbroken.parted_left {cs : List Char} (h : Unbroken cs) (hne : cs ≠ []) (a b : List Char) :
    Parted a (cs ++ b) := by
  rintro ⟨-, hn⟩
  obtain ⟨c, cs, rfl⟩ := List.exists_cons_of_ne_nil hne
  exact h.2 (List.mem_of_head? hn)

theorem Unbroken.parted_right {cs : List Char} (h : Unbroken cs) (hne : cs ≠ []) (a b : List Char) :
    Parted (a ++ cs) b := by
  rintro ⟨hr, -⟩
  rw [getLast?_append_of_ne_nil _ hne] at hr
  exact h.1 (List.mem_of_getLast? hr)

section Edit

variable {front old back content : List Char} (hcontent : Unbroken content) (hne : content ≠ [])
include hcontent hne

/-- **Cuts before an edit stay.** -/
theorem CutAt.before {n : Nat} {q : Position} (h : CutAt (front ++ old ++ back) n q) (hn : n ≤ byteLength front) :
    CutAt (front ++ content ++ back) n q := by
  obtain ⟨a, b, heq, rfl, hparted, hq⟩ := h
  rw [List.append_assoc] at heq
  obtain ⟨x, rfl, hb⟩ := append_split_of_byteLength_le heq.symm hn
  refine ⟨a, x ++ content ++ back, by simp only [List.append_assoc], rfl, ?_, hq⟩
  cases x with
  | nil => exact hcontent.parted_left hne a back
  | cons c x => exact hparted.of_head (by rw [hb]; rfl)

/-- **Cuts behind an edit are moved** as far as its end is. -/
theorem CutAt.behind {n : Nat} {start stop q : Position} (h : CutAt (front ++ old ++ back) n q)
    (hn : byteLength (front ++ old) ≤ n) (hstart : Position.over ⟨0, 0⟩ front = start)
    (hstop : Position.over ⟨0, 0⟩ (front ++ old) = stop) (hparted : Parted (front ++ old) back) :
    ∃ q', CutAt (front ++ content ++ back) (n - byteLength old + byteLength content) q' ∧
      q'.line + stop.line = q.line + start.line ∧
      (q.line = stop.line → q'.character + stop.character = q.character + (start.character + unitLength content)) ∧
      (q.line ≠ stop.line → q'.character = q.character) := by
  obtain ⟨a, b, heq, rfl, hab, rfl⟩ := h
  obtain ⟨x, rfl, hb⟩ := append_split_of_byteLength_le heq hn
  have hpartedX : ∀ f, Parted f back → Parted f x := by
    intro f hf
    cases x with
    | nil => exact fun h => by cases h.2
    | cons c x => exact hf.of_head (by rw [hb]; rfl)
  have hmiddle : Position.over ⟨0, 0⟩ (front ++ content) = ⟨start.line, start.character + unitLength content⟩ := by
    have hfront := hcontent.parted_left hne front []
    rw [List.append_nil] at hfront
    rw [Position.over_append _ hfront, Position.over_unbroken _ hcontent, hstart]
  have hpartedNew : Parted (front ++ content ++ x) b := by
    cases x with
    | nil =>
      rw [List.append_nil]
      exact hcontent.parted_right hne front b
    | cons c x =>
      rintro ⟨hr, hn⟩
      rw [getLast?_append_of_ne_nil _ (List.cons_ne_nil _ _)] at hr
      exact hab ⟨by rw [getLast?_append_of_ne_nil _ (List.cons_ne_nil _ _), hr], hn⟩
  refine ⟨_, ⟨front ++ content ++ x, b, ?_, ?_, hpartedNew, rfl⟩, ?_⟩
  · rw [hb, ← List.append_assoc]
  · simp only [byteLength_append]
    omega
  · rw [Position.over_append _ (hpartedX _ hparted),
      Position.over_append _ (hpartedX _ (hcontent.parted_right hne front back)), hstop, hmiddle]
    exact Position.over_carry stop ⟨start.line, start.character + unitLength content⟩ x

end Edit

end Text
end Localizer
