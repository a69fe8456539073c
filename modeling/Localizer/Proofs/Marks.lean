import Mathlib.Algebra.Group.Prod
import Mathlib.Tactic.Abel
import Localizer.Proofs.Splice
/-!
# Marks — where the marks of a document stand

A sweep over the marks adds up their shifts.  `spots` is what it sees: each mark that is not deleted, with the place that
the shifts so far give to it.
-/
namespace Localizer

open Text (Position Region unitLength)

/-- **A mapping and the place where it stands now**, as line and column. -/
structure Spot where
  mapping : Mapping
  place : Int × Int
  deriving DecidableEq, Repr

/-- **A spot at a further place.** -/
def Spot.move (shift : Int × Int) (s : Spot) : Spot := ⟨s.mapping, s.place + shift⟩

/-- **A spot after a shift on some line**: spots of other lines are moved by lines only. -/
def Spot.carry (line : Int) (shift : Int × Int) (s : Spot) : Spot :=
  if s.place.1 = line then s.move shift else s.move (shift.1, 0)

/-- **The place of a mapping.** -/
def Mapping.place (m : Mapping) : Int × Int := (m.line, m.column)

/-- **A spot as a mapping**, if its place is one of a map. -/
def Spot.mapping? (s : Spot) : Option Mapping :=
  if 0 ≤ s.place.1 && s.place.1 < mapLimit && 0 ≤ s.place.2 && s.place.2 < mapLimit then
    some { s.mapping with line := s.place.1.toNat, column := s.place.2.toNat }
  else none

/-- **The shift on a mark.** -/
def Mark.shifts (m : Mark) : Int × Int := (m.lineShift, m.columnShift)

/-- **The shifts on marks, all together.** -/
def shiftsOf (ms : List Mark) : Int × Int := (ms.map Mark.shifts).sum

/-- **The spots of marks**, after a shift. -/
def markSpots (shift : Int × Int) : List Mark → List Spot
  | [] => []
  | m :: ms =>
    (if m.deleted then [] else [⟨m.mapping, m.mapping.place + (shift + m.shifts)⟩]) ++ markSpots (shift + m.shifts) ms

namespace DocumentLine

/-- **The shift at the start of a line**: columns start again where a line has content. -/
def entering (l : DocumentLine) (shift : Int × Int) : Int × Int :=
  if l.content.isSome then (shift.1, 0) else shift

/-- **The shift behind a line.** -/
def leaving (l : DocumentLine) (shift : Int × Int) : Int × Int :=
  l.entering shift + shiftsOf l.marks + (l.lineShift, l.columnShift)

end DocumentLine

namespace Document

/-- **The spots of lines**, after a shift. -/
def spots (shift : Int × Int) : List DocumentLine → List Spot
  | [] => []
  | l :: ls => markSpots (l.entering shift) l.marks ++ spots (l.leaving shift) ls

theorem shiftsOf_cons (m : Mark) (ms : List Mark) : shiftsOf (m :: ms) = m.shifts + shiftsOf ms := by
  simp [shiftsOf]

theorem shiftsOf_append (a b : List Mark) : shiftsOf (a ++ b) = shiftsOf a + shiftsOf b := by
  simp [shiftsOf]

theorem shiftsOf_delete (ms : List Mark) : shiftsOf (ms.map Mark.delete) = shiftsOf ms := by
  unfold shiftsOf
  rw [List.map_map]
  rfl

theorem sweepMarks_eq (shift : Int × Int) (ms : List Mark) :
    sweepMarks shift.1 shift.2 ms = ((markSpots shift ms).filterMap Spot.mapping?, shift + shiftsOf ms) := by
  induction ms generalizing shift with
  | nil => simp [sweepMarks, markSpots, shiftsOf]
  | cons m ms ih =>
    have hrest : sweepMarks (shift.1 + m.lineShift) (shift.2 + m.columnShift) ms =
        ((markSpots (shift + m.shifts) ms).filterMap Spot.mapping?, shift + m.shifts + shiftsOf ms) :=
      ih (shift + m.shifts)
    have hmoved : (moved? m (shift.1 + m.lineShift) (shift.2 + m.columnShift)).toList =
        (if m.deleted then [] else [⟨m.mapping, m.mapping.place + (shift + m.shifts)⟩]).filterMap Spot.mapping? := by
      unfold moved?
      split
      · rfl
      · rw [List.filterMap_cons, List.filterMap_nil]
        unfold Spot.mapping? Mark.shifts Mapping.place
        simp only [Prod.fst_add, Prod.snd_add]
        split
        · rfl
        · rfl
    simp only [sweepMarks, hrest, hmoved, markSpots, List.filterMap_append, shiftsOf_cons, add_assoc]

theorem sweepLines_eq (shift : Int × Int) (ls : List DocumentLine) :
    sweepLines shift.1 shift.2 ls = (spots shift ls).filterMap Spot.mapping? := by
  induction ls generalizing shift with
  | nil => rfl
  | cons l ls ih =>
    have hentering : (shift.1, if l.content.isSome then 0 else shift.2) = l.entering shift := by
      unfold DocumentLine.entering
      split <;> rfl
    have hmarks := sweepMarks_eq (l.entering shift) l.marks
    rw [← hentering] at hmarks
    rw [sweepLines, hmarks, spots, List.filterMap_append, ← ih, hentering]
    rfl

/-! ## Spots after a further shift -/

theorem markSpots_append (shift : Int × Int) (a b : List Mark) :
    markSpots shift (a ++ b) = markSpots shift a ++ markSpots (shift + shiftsOf a) b := by
  induction a generalizing shift with
  | nil => simp [markSpots, shiftsOf]
  | cons m a ih => rw [List.cons_append, markSpots, markSpots, ih, shiftsOf_cons, List.append_assoc, add_assoc]

theorem markSpots_delete (shift : Int × Int) (ms : List Mark) : markSpots shift (ms.map Mark.delete) = [] := by
  induction ms generalizing shift with
  | nil => rfl
  | cons m ms ih => rw [List.map_cons, markSpots, ih]; rfl

theorem markSpots_add (shift more : Int × Int) (ms : List Mark) :
    markSpots (shift + more) ms = (markSpots shift ms).map (Spot.move more) := by
  induction ms generalizing shift with
  | nil => rfl
  | cons m ms ih =>
    rw [markSpots, markSpots, add_right_comm, ih, List.map_append]
    congr 1
    split
    · rfl
    · simp [Spot.move, add_assoc]

theorem mem_markSpots {shift : Int × Int} {ms : List Mark} {s : Spot} (h : s ∈ markSpots shift ms) :
    ∃ m ∈ ms, s.mapping = m.mapping := by
  induction ms generalizing shift with
  | nil => cases h
  | cons m ms ih =>
    rw [markSpots] at h
    rcases List.mem_append.1 h with h | h
    · split at h
      · cases h
      · rw [List.mem_singleton.1 h]
        exact ⟨m, List.mem_cons_self .., rfl⟩
    · obtain ⟨k, hk, heq⟩ := ih h
      exact ⟨k, List.mem_cons_of_mem _ hk, heq⟩

theorem spots_add_lines (shift : Int × Int) (n : Int) (ls : List DocumentLine) :
    spots (shift + (n, 0)) ls = (spots shift ls).map (Spot.move (n, 0)) := by
  induction ls generalizing shift with
  | nil => rfl
  | cons l ls ih =>
    have hentering : l.entering (shift + (n, 0)) = l.entering shift + (n, 0) := by
      unfold DocumentLine.entering
      split <;> simp
    have hleaving : l.leaving (shift + (n, 0)) = l.leaving shift + (n, 0) := by
      unfold DocumentLine.leaving
      rw [hentering]
      abel
    rw [spots, spots, hentering, hleaving, markSpots_add, ih, List.map_append]

/-- **The spots of lines stand on the lines of the text**: those of a line stand on the last line with content up to it,
`count` being the lines with content before. -/
def Leveled (count : Int) (shift : Int × Int) : List DocumentLine → Prop
  | [] => True
  | l :: ls =>
    (∀ s ∈ markSpots (l.entering shift) l.marks, s.place.1 = (if l.content.isSome then count else count - 1)) ∧
      Leveled (if l.content.isSome then count + 1 else count) (l.leaving shift) ls

theorem le_of_leveled {count : Int} {shift : Int × Int} {ls : List DocumentLine} (h : Leveled count shift ls) :
    ∀ s ∈ spots shift ls, count - 1 ≤ s.place.1 := by
  induction ls generalizing count shift with
  | nil =>
    intro s hs
    cases hs
  | cons l ls ih =>
    intro s hs
    obtain ⟨hhere, hrest⟩ := h
    rcases List.mem_append.1 hs with hs | hs
    · rw [hhere s hs]
      split <;> omega
    · have := ih hrest s hs
      split at this <;> omega

/-- **A further shift is carried up to the next line with content**, its columns no further. -/
theorem spots_add {line : Int} {shift : Int × Int} {ls : List DocumentLine} (h : Leveled (line + 1) shift ls)
    (more : Int × Int) : spots (shift + more) ls = (spots shift ls).map (Spot.carry line more) := by
  induction ls generalizing shift with
  | nil => rfl
  | cons l ls ih =>
    obtain ⟨hhere, hrest⟩ := h
    by_cases hlive : l.content.isSome = true
    · -- the columns of the shift end here
      have henter : l.entering (shift + more) = l.entering (shift + (more.1, 0)) := by
        simp [DocumentLine.entering, hlive]
      have hother : ∀ s ∈ spots shift (l :: ls), s.place.1 ≠ line := by
        intro s hs
        rcases List.mem_append.1 hs with hs | hs
        · rw [hhere s hs, if_pos hlive]
          omega
        · rw [if_pos hlive] at hrest
          have := le_of_leveled hrest s hs
          omega
      have hcarry : (spots shift (l :: ls)).map (Spot.carry line more) =
          (spots shift (l :: ls)).map (Spot.move (more.1, 0)) :=
        List.map_congr_left fun s hs => if_neg (hother s hs)
      rw [hcarry, ← spots_add_lines, spots, spots, DocumentLine.leaving, DocumentLine.leaving, henter]
    · have henter (shift : Int × Int) : l.entering shift = shift := if_neg hlive
      have hleave : l.leaving (shift + more) = l.leaving shift + more := by
        unfold DocumentLine.leaving
        rw [henter, henter]
        abel
      have hcarry : (markSpots shift l.marks).map (Spot.carry line more) =
          (markSpots shift l.marks).map (Spot.move more) := by
        refine List.map_congr_left fun s hs => if_pos ?_
        rw [hhere s (by rwa [henter]), if_neg hlive]
        omega
      rw [if_neg hlive] at hrest
      rw [spots, spots, List.map_append, hleave, ih hrest, henter, henter, markSpots_add, hcarry]

theorem leveled_add {count n : Int} {shift more : Int × Int} {ls : List DocumentLine} (h : Leveled count shift ls)
    (hn : more.1 = n) : Leveled (count + n) (shift + more) ls := by
  induction ls generalizing count shift more with
  | nil => trivial
  | cons l ls ih =>
    obtain ⟨hhere, hrest⟩ := h
    -- only the lines of a shift matter, and they pass through
    obtain ⟨more', hmore', henter⟩ : ∃ more' : Int × Int, more'.1 = n ∧
        l.entering (shift + more) = l.entering shift + more' := by
      by_cases hlive : l.content.isSome = true
      · exact ⟨(n, 0), rfl, by simp [DocumentLine.entering, hlive, hn]⟩
      · exact ⟨more, hn, by simp [DocumentLine.entering, hlive]⟩
    have hleave : l.leaving (shift + more) = l.leaving shift + more' := by
      unfold DocumentLine.leaving
      rw [henter]
      abel
    refine ⟨fun s hs => ?_, ?_⟩
    · rw [henter, markSpots_add] at hs
      obtain ⟨t, ht, rfl⟩ := List.mem_map.1 hs
      simp only [Spot.move, Prod.fst_add, hmore', hhere t ht]
      split <;> omega
    · have := ih hrest hmore'
      rw [hleave]
      convert this using 1
      split <;> omega

/-! ## Lines one after another -/

/-- **The shift behind lines.** -/
def through (shift : Int × Int) (ls : List DocumentLine) : Int × Int := ls.foldl (fun shift l => l.leaving shift) shift

/-- **How many lines have content.** -/
def liveCount (ls : List DocumentLine) : Int := ls.countP (·.content.isSome)

theorem spots_append (shift : Int × Int) (a b : List DocumentLine) :
    spots shift (a ++ b) = spots shift a ++ spots (through shift a) b := by
  induction a generalizing shift with
  | nil => rfl
  | cons l a ih => rw [List.cons_append, spots, spots, ih, List.append_assoc]; rfl

theorem leveled_append (count : Int) (shift : Int × Int) (a b : List DocumentLine) :
    Leveled count shift (a ++ b) ↔ Leveled count shift a ∧ Leveled (count + liveCount a) (through shift a) b := by
  induction a generalizing count shift with
  | nil => simp [Leveled, liveCount, through]
  | cons l a ih =>
    have hcount : count + liveCount (l :: a) = (if l.content.isSome then count + 1 else count) + liveCount a := by
      unfold liveCount
      rw [List.countP_cons]
      split <;> push_cast <;> omega
    rw [List.cons_append, Leveled, Leveled, ih, hcount, and_assoc]
    rfl

/-- **A line without shifts**, or whose shifts cancel out. -/
def Still (l : DocumentLine) : Prop := shiftsOf l.marks + (l.lineShift, l.columnShift) = 0

theorem entering_zero (l : DocumentLine) : l.entering 0 = 0 := by
  unfold DocumentLine.entering
  split <;> rfl

theorem Still.leaving {l : DocumentLine} (h : Still l) : l.leaving 0 = 0 := by
  rw [DocumentLine.leaving, entering_zero, zero_add]
  exact h

theorem through_still {ls : List DocumentLine} (h : ∀ l ∈ ls, Still l) : through 0 ls = 0 := by
  induction ls with
  | nil => rfl
  | cons l ls ih =>
    rw [through, List.foldl_cons, (h l (List.mem_cons_self ..)).leaving]
    exact ih fun x hx => h x (List.mem_cons_of_mem _ hx)

/-! ## A line cut in two -/

/-- **The back of a line**: some of its marks and its own shift. -/
def backOf (l : DocumentLine) (after : List Mark) : DocumentLine := { l with content := none, marks := after }

theorem spots_backOf (l : DocumentLine) (after : List Mark) (shift : Int × Int) (ls : List DocumentLine) :
    spots shift (backOf l after :: ls) =
      markSpots shift after ++ spots (shift + shiftsOf after + (l.lineShift, l.columnShift)) ls := rfl

theorem leaving_cut {l : DocumentLine} {before after : List Mark} (h : l.marks = before ++ after) (shift : Int × Int) :
    l.leaving shift = l.entering shift + shiftsOf before + shiftsOf after + (l.lineShift, l.columnShift) := by
  rw [DocumentLine.leaving, h, shiftsOf_append, ← add_assoc]

theorem spots_cut {l : DocumentLine} {before after : List Mark} (h : l.marks = before ++ after) (shift : Int × Int)
    (ls : List DocumentLine) :
    spots shift (l :: ls) =
      markSpots (l.entering shift) before ++ spots (l.entering shift + shiftsOf before) (backOf l after :: ls) := by
  rw [spots, spots_backOf, leaving_cut h, h, markSpots_append, List.append_assoc]

theorem spots_shiftFrom (l : DocumentLine) (before after : List Mark) (more shift : Int × Int)
    (ls : List DocumentLine) :
    spots shift (l.shiftFrom before after more.1 more.2 :: ls) =
      markSpots (l.entering shift) before ++
        spots (l.entering shift + shiftsOf before + more) (backOf l after :: ls) := by
  cases after with
  | nil =>
    have hown : (l.lineShift + more.1, l.columnShift + more.2) = more + (l.lineShift, l.columnShift) :=
      add_comm (l.lineShift, l.columnShift) more
    have hleave : (l.shiftFrom before [] more.1 more.2).leaving shift =
        l.entering shift + shiftsOf before + more + (l.lineShift, l.columnShift) := by
      rw [add_assoc _ more, ← hown]
      rfl
    rw [spots, hleave, spots_backOf]
    simp only [shiftsOf, List.map_nil, List.sum_nil, add_zero]
    rfl
  | cons m after =>
    have hshifts : (m.shift more.1 more.2).shifts = more + m.shifts := add_comm m.shifts more
    have hcut := spots_cut (l := l.shiftFrom before (m :: after) more.1 more.2) rfl shift ls
    rw [hcut, spots_backOf, spots_backOf, markSpots, markSpots, shiftsOf_cons, shiftsOf_cons, hshifts]
    simp only [add_assoc]
    rfl

theorem leveled_backOf (l : DocumentLine) (after : List Mark) (count : Int) (shift : Int × Int) (ls : List DocumentLine) :
    Leveled count shift (backOf l after :: ls) ↔ (∀ s ∈ markSpots shift after, s.place.1 = count - 1) ∧
      Leveled count (shift + shiftsOf after + (l.lineShift, l.columnShift)) ls := Iff.rfl

theorem leveled_cut {l : DocumentLine} {before after : List Mark} (h : l.marks = before ++ after) (count : Int)
    (shift : Int × Int) (ls : List DocumentLine) :
    Leveled count shift (l :: ls) ↔
      (∀ s ∈ markSpots (l.entering shift) before, s.place.1 = (if l.content.isSome then count else count - 1)) ∧
        Leveled (if l.content.isSome then count + 1 else count) (l.entering shift + shiftsOf before)
          (backOf l after :: ls) := by
  have hlevel : (if l.content.isSome then count else count - 1) =
      (if l.content.isSome then count + 1 else count) - 1 := by
    split <;> omega
  rw [Leveled, leveled_backOf, leaving_cut h, h, markSpots_append, List.forall_mem_append, and_assoc, hlevel]

theorem leveled_shiftFrom (l : DocumentLine) (before after : List Mark) (more : Int × Int) (count : Int)
    (shift : Int × Int) (ls : List DocumentLine) :
    Leveled count shift (l.shiftFrom before after more.1 more.2 :: ls) ↔
      (∀ s ∈ markSpots (l.entering shift) before, s.place.1 = (if l.content.isSome then count else count - 1)) ∧
        Leveled (if l.content.isSome then count + 1 else count) (l.entering shift + shiftsOf before + more)
          (backOf l after :: ls) := by
  cases after with
  | nil =>
    have hown : (l.lineShift + more.1, l.columnShift + more.2) = more + (l.lineShift, l.columnShift) :=
      add_comm (l.lineShift, l.columnShift) more
    have hleave : (l.shiftFrom before [] more.1 more.2).leaving shift =
        l.entering shift + shiftsOf before + more + (l.lineShift, l.columnShift) := by
      rw [add_assoc _ more, ← hown]
      rfl
    rw [Leveled, hleave, leveled_backOf]
    simp only [shiftsOf, List.map_nil, List.sum_nil, add_zero, markSpots, List.not_mem_nil, false_implies,
      implies_true, true_and]
    rfl
  | cons m after =>
    have hshifts : (m.shift more.1 more.2).shifts = more + m.shifts := add_comm m.shifts more
    have hcut := leveled_cut (l := l.shiftFrom before (m :: after) more.1 more.2) rfl count shift ls
    rw [hcut, leveled_backOf, leveled_backOf, markSpots, markSpots, shiftsOf_cons, shiftsOf_cons, hshifts]
    simp only [add_assoc]
    rfl

/-! ## Marks on a line, by column -/

/-- **Sorted marks on both sides of a column.** -/
theorem exists_split_of_sorted {ms : List Mark} (h : ms.Pairwise fun a b => a.column ≤ b.column) (reach : Mark → Bool)
    (hreach : ∀ a b : Mark, a.column ≤ b.column → reach b = true → reach a = true) :
    ∃ before after, ms = before ++ after ∧ (∀ m ∈ before, reach m = true) ∧ (∀ m ∈ after, reach m = false) := by
  refine ⟨ms.takeWhile reach, ms.dropWhile reach, List.takeWhile_append_dropWhile.symm,
    fun m hm => List.all_eq_true.1 List.all_takeWhile m hm, ?_⟩
  induction ms with
  | nil =>
    intro m hm
    cases hm
  | cons a ms ih =>
    by_cases ha : reach a = true
    · rw [List.dropWhile_cons_of_pos ha]
      exact ih h.of_cons
    · rw [List.dropWhile_cons_of_neg ha]
      intro m hm
      rcases List.mem_cons.1 hm with rfl | hm
      · exact Bool.eq_false_iff.2 ha
      · exact Bool.eq_false_iff.2 fun hreached => ha (hreach a m (List.rel_of_pairwise_cons h hm) hreached)

/-- **A mark before a column is deleted.** -/
def strike (column : Nat) (m : Mark) : Mark := if m.column < column then m.delete else m

theorem map_strike_of_le {column : Nat} {ms : List Mark} (h : ∀ m ∈ ms, column ≤ m.column) :
    ms.map (strike column) = ms := by
  conv => rhs; rw [← List.map_id ms]
  exact List.map_congr_left fun m hm => if_neg (Nat.not_lt.2 (h m hm))

theorem map_strike_of_lt {column : Nat} {ms : List Mark} (h : ∀ m ∈ ms, m.column < column) :
    ms.map (strike column) = ms.map Mark.delete :=
  List.map_congr_left fun m hm => if_pos (h m hm)

theorem walkMarks_eq {start stop : Nat} {passed kept : List Mark} (hpassed : ∀ m ∈ passed, start < m.column)
    (hkept : ∀ m ∈ kept, m.column ≤ start) (done : List Mark) :
    walkMarks start stop (passed ++ kept) done = (kept, (passed.map (strike stop)).reverse ++ done) := by
  induction passed generalizing done with
  | nil =>
    cases kept with
    | nil => rfl
    | cons m kept => rw [List.nil_append, walkMarks, if_pos (hkept m (List.mem_cons_self ..))]; rfl
  | cons m passed ih =>
    have hm : start < m.column := hpassed m (List.mem_cons_self ..)
    rw [List.cons_append, walkMarks, if_neg (by omega), ih fun x hx => hpassed x (List.mem_cons_of_mem _ hx)]
    simp [strike]

/-- **The walk over the marks of a line** deletes those within a patch and shifts those behind it, no matter how many at
the end of the line it may skip. -/
theorem shiftWithin_eq {pre : List DocumentLine} (l : DocumentLine) (post : List DocumentLine) {p : Patch} {walk : MarkWalk}
    (hpre : pre.length = p.region.start.line) (hsorted : l.marks.Pairwise fun a b => a.column ≤ b.column)
    (hwalk : walk.line = some p.region.start.line → ∀ m ∈ l.marks.drop walk.left,
      p.region.start.character < m.column ∧ p.region.stop.character ≤ m.column) :
    ∃ before after, l.marks = before ++ after ∧ (∀ m ∈ before, m.column ≤ p.region.start.character) ∧
      (∀ m ∈ after, p.region.start.character < m.column) ∧
      shiftWithin (pre ++ l :: post) p walk =
        (pre ++ l.shiftFrom before (after.map (strike p.region.stop.character)) 0
          ((unitLength p.content : Int) - ((p.region.stop.character : Int) - (p.region.start.character : Int))) :: post,
          ⟨some p.region.start.line, before.length⟩) := by
  obtain ⟨left, hleft, hdone⟩ : ∃ left, (if walk.line == some p.region.start.line then walk.left else l.marks.length) =
      left ∧ ∀ m ∈ l.marks.drop left, p.region.start.character < m.column ∧ p.region.stop.character ≤ m.column := by
    split
    · rename_i h
      exact ⟨walk.left, rfl, hwalk (eq_of_beq h)⟩
    · exact ⟨_, rfl, by simp⟩
  obtain ⟨before, passed, hsplit, hbefore, hpassed⟩ :=
    exists_split_of_sorted (hsorted.sublist (List.take_sublist left l.marks))
      (fun m => decide (m.column ≤ p.region.start.character)) (fun a b hab hb => by simp_all; omega)
  have hbefore' : ∀ m ∈ before, m.column ≤ p.region.start.character := fun m hm => by simpa using hbefore m hm
  have hpassed' : ∀ m ∈ passed, p.region.start.character < m.column := fun m hm => by simpa using hpassed m hm
  refine ⟨before, passed ++ l.marks.drop left, ?_, hbefore', ?_, ?_⟩
  · rw [← List.append_assoc, ← hsplit, List.take_append_drop]
  · intro m hm
    rcases List.mem_append.1 hm with hm | hm
    · exact hpassed' m hm
    · exact (hdone m hm).1
  · have hline : (pre ++ l :: post)[p.region.start.line]? = some l := by
      rw [← hpre, List.getElem?_append_right (Nat.le_refl _), Nat.sub_self]
      rfl
    have hstrike : (l.marks.drop left).map (strike p.region.stop.character) = l.marks.drop left :=
      map_strike_of_le fun m hm => (hdone m hm).2
    have hwalked : walkMarks p.region.start.character p.region.stop.character (l.marks.take left).reverse
        (l.marks.drop left) =
          (before.reverse, (passed ++ l.marks.drop left).map (strike p.region.stop.character)) := by
      rw [hsplit, List.reverse_append, walkMarks_eq (by simpa using hpassed') (by simpa using hbefore')]
      simp [hstrike]
    simp only [shiftWithin, hline, Option.getD_some, hleft, hwalked, List.reverse_reverse, List.length_reverse]
    rw [← hpre, List.set_append_right _ _ (Nat.le_refl _), Nat.sub_self, List.set_cons_zero]

end Document
end Localizer
