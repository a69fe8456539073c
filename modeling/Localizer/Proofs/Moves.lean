import Mathlib.Data.List.Basic
import Localizer.Proofs.Marks
/-!
# Moves — what patches do to spots

One edit deletes the spots that its patch covers, moves those behind it and leaves the others.  Edits from the last patch
to the first do this patch by patch (`spots_edits`), because none of them touches what stands before its own start: what
the next patch meets there is as it was at the beginning (`Ready`).
-/
namespace Localizer

open Text (Position Region Ending unitLength takeUnits dropUnits)

/-- **The place of a mapping in the unedited text.** -/
def Mapping.position (m : Mapping) : Position := ⟨m.line, m.column⟩

namespace Patch

/-- **A place that is gone once a patch is made**: inside its region, or at its start if it joins lines. -/
def covers (p : Patch) (place : Position) : Bool :=
  (p.region.start.before place && place.before p.region.stop) || (!p.region.isSingleLine && p.region.start == place)

/-- **A patch that moves a place.** -/
def precedes (p : Patch) (place : Position) : Bool := p.region.start.before place && p.region.stop.upTo place

/-- **How far a patch moves what stands behind it on the line where it stops.** -/
def shift (p : Patch) : Int × Int :=
  ((p.region.start.line : Int) - p.region.stop.line,
    (p.region.start.character : Int) - p.region.stop.character + unitLength p.content)

/-- **What a patch does to a spot.** -/
def moveSpot (p : Patch) (s : Spot) : Option Spot :=
  if p.covers s.mapping.position then none
  else if p.precedes s.mapping.position then some (s.carry p.region.stop.line p.shift)
  else some s

theorem spares {p : Patch} {q : Position} (h : q.upTo p.region.start = true)
    (hs : p.region.isSingleLine = true ∨ q.before p.region.start = true) :
    p.covers q = false ∧ p.precedes q = false := by
  have hbefore : p.region.start.before q = false := by simpa [Position.upTo] using h
  have hstart : (!p.region.isSingleLine && p.region.start == q) = false := by
    rcases hs with hs | hs
    · simp [hs]
    · have hne : p.region.start ≠ q := by
        rintro rfl
        rw [hs] at hbefore
        cases hbefore
      simp [hne]
  simp [covers, precedes, hbefore, hstart]

theorem covers_between {p : Patch} {q : Position} (h : p.region.start.upTo q = true) (h' : q.before p.region.stop = true)
    (hs : p.region.isSingleLine = false ∨ p.region.start.before q = true) : p.covers q = true := by
  rcases hs with hs | hs
  · by_cases heq : p.region.start = q
    · simp [covers, hs, heq]
    · have hbefore : p.region.start.before q = true := by
        have hne : p.region.start.line ≠ q.line ∨ p.region.start.character ≠ q.character := by
          by_contra hboth
          push Not at hboth
          exact heq (by cases q; cases hp : p.region.start; simp_all)
        rw [Position.upTo_iff] at h
        rw [Position.before_iff]
        omega
      simp [covers, hbefore, h']
  · simp [covers, hs, h']

theorem precedes_behind {p : Patch} {q : Position} (h : p.region.start.before q = true)
    (h' : p.region.stop.upTo q = true) : p.covers q = false ∧ p.precedes q = true := by
  have hstop : q.before p.region.stop = false := by simpa [Position.upTo] using h'
  have hne : p.region.start ≠ q := by
    rintro heq
    rw [heq, Position.before_iff] at h
    omega
  simp [covers, precedes, h, h', hstop, hne]

theorem filterMap_moveSpot {p : Patch} {front hit back : List Spot}
    (hfront : ∀ s ∈ front, p.covers s.mapping.position = false ∧ p.precedes s.mapping.position = false)
    (hhit : ∀ s ∈ hit, p.covers s.mapping.position = true)
    (hback : ∀ s ∈ back, p.covers s.mapping.position = false ∧ p.precedes s.mapping.position = true) :
    (front ++ (hit ++ back)).filterMap p.moveSpot = front ++ back.map (Spot.carry p.region.stop.line p.shift) := by
  have h1 : front.filterMap p.moveSpot = front.map id :=
    List.filterMap_eq_map_iff_forall_eq_some.2 fun s hs => by rw [moveSpot, (hfront s hs).1, (hfront s hs).2]; rfl
  have h2 : hit.filterMap p.moveSpot = [] :=
    List.filterMap_eq_nil_iff.2 fun s hs => by rw [moveSpot, if_pos (hhit s hs)]
  have h3 : back.filterMap p.moveSpot = back.map (Spot.carry p.region.stop.line p.shift) :=
    List.filterMap_eq_map_iff_forall_eq_some.2 fun s hs => by rw [moveSpot, (hback s hs).1, (hback s hs).2]; rfl
  rw [List.filterMap_append, List.filterMap_append, h1, h2, h3, List.map_id, List.nil_append]

end Patch

namespace Document

/-! ## One edit, in full -/

theorem deleteFrom_eq {column : Nat} {before after : List Mark} (hbefore : ∀ m ∈ before, m.column < column)
    (hafter : ∀ m ∈ after, column ≤ m.column) : deleteFrom column (before ++ after) = before ++ after.map Mark.delete := by
  have hlate : ((before ++ after).reverse.takeWhile fun m => Nat.ble column m.column).reverse = after := by
    have hnone : before.reverse.takeWhile (fun m => Nat.ble column m.column) = [] := by
      refine List.eq_nil_iff_forall_not_mem.2 fun m hm => ?_
      have hle := List.all_eq_true.1 List.all_takeWhile m hm
      have hlt := hbefore m (List.mem_reverse.1 (List.takeWhile_sublist _ |>.subset hm))
      rw [Nat.ble_eq] at hle
      omega
    rw [List.reverse_append, List.takeWhile_append_of_pos (by simpa using hafter), hnone, List.append_nil,
      List.reverse_reverse]
  rw [deleteFrom, hlate]
  simp

theorem shiftAcross_eq {pre mid post : List DocumentLine} (l m : DocumentLine) {p : Patch}
    (hpre : pre.length = p.region.start.line) (hmid : pre.length + 1 + mid.length = p.region.stop.line) :
    shiftAcross (pre ++ l :: (mid ++ m :: post)) p =
      pre ++ { l with marks := deleteFrom p.region.start.character l.marks } ::
        (mid.map (fun x => { x with marks := x.marks.map Mark.delete }) ++
          m.shiftFrom ((m.marks.takeWhile fun k => Nat.blt k.column p.region.stop.character).map Mark.delete)
            (m.marks.dropWhile fun k => Nat.blt k.column p.region.stop.character) p.shift.1 p.shift.2 :: post) := by
  unfold shiftAcross
  rw [mapIdx_between (g := fun x => { x with marks := x.marks.map Mark.delete })]
  · rw [hmid, hpre, if_pos rfl, if_neg (by omega), if_neg (by simp), if_pos rfl]
    rfl
  · intro i x hi
    grind
  · intro i x hi hi'
    grind
  · intro i x hi
    grind

/-- **Marks within a line before and from a column on.** -/
theorem exists_split_at {ms : List Mark} (h : ms.Pairwise fun a b => a.column ≤ b.column) (column : Nat) :
    ∃ before after, ms = before ++ after ∧ (∀ m ∈ before, m.column < column) ∧ (∀ m ∈ after, column ≤ m.column) := by
  obtain ⟨before, after, hms, hbefore, hafter⟩ :=
    exists_split_of_sorted h (fun m => decide (m.column < column)) fun a b hab hb => by simp_all; omega
  exact ⟨before, after, hms, fun m hm => by simpa using hbefore m hm, fun m hm => by simpa using hafter m hm⟩

theorem whiles_of_split {column : Nat} {before after : List Mark} (hbefore : ∀ m ∈ before, m.column < column)
    (hafter : ∀ m ∈ after, column ≤ m.column) :
    ((before ++ after).takeWhile fun m => Nat.blt m.column column) = before ∧
      ((before ++ after).dropWhile fun m => Nat.blt m.column column) = after := by
  have hpos : ∀ m ∈ before, Nat.blt m.column column = true := by
    intro m hm
    rw [Nat.blt_eq]
    exact hbefore m hm
  rw [List.takeWhile_append_of_pos hpos, List.dropWhile_append_of_pos hpos]
  cases after with
  | nil => simp
  | cons m after =>
    have hm : ¬ Nat.blt m.column column = true := by
      rw [Nat.blt_eq, Nat.not_lt]
      exact hafter m (List.mem_cons_self ..)
    have htake : List.takeWhile (fun k : Mark => Nat.blt k.column column) (m :: after) = [] :=
      List.takeWhile_cons_of_neg hm
    have hdrop : List.dropWhile (fun k : Mark => Nat.blt k.column column) (m :: after) = m :: after :=
      List.dropWhile_cons_of_neg hm
    rw [htake, hdrop, List.append_nil]
    exact ⟨rfl, rfl⟩

theorem edit_within {pre : List DocumentLine} (post : List DocumentLine) {l : DocumentLine} {c : List Char} {p : Patch}
    {walk : MarkWalk} (hpre : pre.length = p.region.start.line) (hstop : p.region.stop.line = p.region.start.line)
    (hc : l.content = some c) (hsorted : l.marks.Pairwise fun a b => a.column ≤ b.column)
    (hwalk : walk.line = some p.region.start.line → ∀ m ∈ l.marks.drop walk.left,
      p.region.start.character < m.column ∧ p.region.stop.character ≤ m.column) :
    ∃ content before after, l.marks = before ++ after ∧ (∀ m ∈ before, m.column ≤ p.region.start.character) ∧
      (∀ m ∈ after, p.region.start.character < m.column) ∧
      edit true (pre ++ l :: post) walk p =
        (pre ++ { l with content := some content }.shiftFrom before (after.map (strike p.region.stop.character))
          p.shift.1 p.shift.2 :: post, ⟨some p.region.start.line, before.length⟩) := by
  have hsingle : p.region.isSingleLine = true := by simp [Region.isSingleLine, hstop]
  let content := takeUnits c p.region.start.character ++ p.content ++ dropUnits c p.region.stop.character
  obtain ⟨before, after, hmarks, hbefore, hafter, heq⟩ :=
    shiftWithin_eq { l with content := some content } post hpre hsorted hwalk
  have hlines : p.shift.1 = 0 := by
    simp only [Patch.shift, hstop]
    omega
  have hcolumns : p.shift.2 =
      (unitLength p.content : Int) - ((p.region.stop.character : Int) - (p.region.start.character : Int)) := by
    simp only [Patch.shift]
    omega
  refine ⟨content, before, after, hmarks, hbefore, hafter, ?_⟩
  simp only [edit, splice_within hpre hstop hc, hsingle, Bool.not_true, Bool.false_eq_true, if_false, if_true, hlines,
    hcolumns]
  exact heq

/-- **A line that is joined to one before.** -/
def joined (l : DocumentLine) : DocumentLine := { l with content := none, marks := l.marks.map Mark.delete }

theorem edit_across {pre mid : List DocumentLine} (post : List DocumentLine) {l m : DocumentLine} {c e : List Char}
    {p : Patch} (walk : MarkWalk) (hpre : pre.length = p.region.start.line)
    (hmid : pre.length + 1 + mid.length = p.region.stop.line) (hc : l.content = some c) (he : m.content = some e)
    (hl : l.marks.Pairwise fun a b => a.column ≤ b.column) (hm : m.marks.Pairwise fun a b => a.column ≤ b.column) :
    ∃ content before after gone kept, l.marks = before ++ after ∧
      (∀ k ∈ before, k.column < p.region.start.character) ∧ (∀ k ∈ after, p.region.start.character ≤ k.column) ∧
      m.marks = gone ++ kept ∧ (∀ k ∈ gone, k.column < p.region.stop.character) ∧
      (∀ k ∈ kept, p.region.stop.character ≤ k.column) ∧
      edit true (pre ++ l :: (mid ++ m :: post)) walk p =
        (pre ++ { l with content := some content, ending := m.ending, marks := before ++ after.map Mark.delete } ::
          (mid.map joined ++ { m with content := none, ending := .nothing }.shiftFrom (gone.map Mark.delete) kept
            p.shift.1 p.shift.2 :: post), { walk with line := none }) := by
  obtain ⟨before, after, hlm, hbefore, hafter⟩ := exists_split_at hl p.region.start.character
  obtain ⟨gone, kept, hmm, hgone, hkept⟩ := exists_split_at hm p.region.stop.character
  have hsingle : p.region.isSingleLine = false := by
    simp only [Region.isSingleLine, beq_eq_false_iff_ne]
    omega
  refine ⟨takeUnits c p.region.start.character ++ p.content ++ dropUnits e p.region.stop.character, before, after, gone,
    kept, hlm, hbefore, hafter, hmm, hgone, hkept, ?_⟩
  obtain ⟨htake, hdrop⟩ := whiles_of_split hgone hkept
  simp only [edit, splice_across hpre hmid hc he, hsingle, Bool.not_true, Bool.false_eq_true, if_false]
  rw [shiftAcross_eq _ _ hpre (by rw [List.length_map]; exact hmid)]
  simp only [hlm, hmm, deleteFrom_eq hbefore hafter, htake, hdrop, List.map_map]
  rfl

/-! ## What an edit leaves as it is -/

/-- **The mappings on each line.** -/
def mappingsOn (lines : List DocumentLine) : List (List Mapping) := lines.map fun l => l.marks.map Mark.mapping

theorem mappingsOn_split (pre : List DocumentLine) (l : DocumentLine) (post : List DocumentLine) :
    mappingsOn (pre ++ l :: post) = mappingsOn pre ++ l.marks.map Mark.mapping :: mappingsOn post := by
  simp only [mappingsOn, List.map_append, List.map_cons]

/-- **Mappings on their lines**, by column. -/
def Homed (rows : List (List Mapping)) : Prop :=
  ∀ (i : Nat) (row : List Mapping), rows[i]? = some row →
    row.Pairwise (fun a b => a.column ≤ b.column) ∧ ∀ m ∈ row, m.line = i

theorem Homed.split {pre post : List DocumentLine} {l : DocumentLine} (h : Homed (mappingsOn (pre ++ l :: post))) :
    l.marks.Pairwise (fun a b => a.column ≤ b.column) ∧ ∀ m ∈ l.marks, m.mapping.line = pre.length := by
  obtain ⟨hsorted, hline⟩ := h pre.length (l.marks.map Mark.mapping) (by simp [mappingsOn])
  rw [List.pairwise_map] at hsorted
  exact ⟨hsorted, fun m hm => hline _ (List.mem_map_of_mem hm)⟩

theorem mem_spots {shift : Int × Int} {ls : List DocumentLine} {s : Spot} (h : s ∈ spots shift ls) :
    ∃ pre l post, ls = pre ++ l :: post ∧ ∃ m ∈ l.marks, s.mapping = m.mapping := by
  induction ls generalizing shift with
  | nil => cases h
  | cons l ls ih =>
    rcases List.mem_append.1 h with h | h
    · exact ⟨[], l, ls, rfl, mem_markSpots h⟩
    · obtain ⟨pre, k, post, rfl, hm⟩ := ih h
      exact ⟨l :: pre, k, post, rfl, hm⟩

/-- **A mark that no edit has touched.** -/
def Untouched (m : Mark) : Prop := m = .ofMapping m.mapping

theorem shiftsOf_untouched {ms : List Mark} (h : ∀ m ∈ ms, Untouched m) : shiftsOf ms = 0 := by
  induction ms with
  | nil => rfl
  | cons m ms ih =>
    have hm : m.shifts = 0 := by
      rw [h m (List.mem_cons_self ..)]
      rfl
    rw [shiftsOf_cons, hm, ih fun x hx => h x (List.mem_cons_of_mem _ hx), add_zero]

/-- **A line that no edit has touched.** -/
structure Pristine (l : DocumentLine) : Prop where
  live : l.content.isSome = true
  marks : ∀ m ∈ l.marks, Untouched m
  lineShift : l.lineShift = 0
  columnShift : l.columnShift = 0

theorem Pristine.still {l : DocumentLine} (h : Pristine l) : Still l := by
  rw [Still, shiftsOf_untouched h.marks, h.lineShift, h.columnShift]
  rfl

theorem liveCount_pristine {ls : List DocumentLine} (h : ∀ l ∈ ls, Pristine l) : liveCount ls = ls.length := by
  unfold liveCount
  rw [List.countP_eq_length.2 fun l hl => (h l hl).live]

/-- **All up to `limit` is as it was before any edit.**  Marks on the line of `limit` may have been walked, and those are
behind it. -/
structure Ready (limit : Option Position) (walk : MarkWalk) (lines : List DocumentLine) : Prop where
  leveled : Leveled 0 0 lines
  before : ∀ pre l post, lines = pre ++ l :: post → (∀ q ∈ limit, pre.length < q.line) → Pristine l
  front : ∀ pre l post, lines = pre ++ l :: post → ∀ q ∈ limit, pre.length = q.line →
    ∀ m ∈ l.marks, m.column < q.character → Untouched m
  walked : ∀ pre l post, lines = pre ++ l :: post → walk.line = some pre.length →
    ∃ q ∈ limit, q.line = pre.length ∧ ∀ m ∈ l.marks.drop walk.left, q.character < m.column

variable {limit : Option Position} {walk : MarkWalk}

theorem Ready.pristine {pre post : List DocumentLine} (h : Ready limit walk (pre ++ post))
    (hlimit : ∀ q ∈ limit, pre.length ≤ q.line) : ∀ l ∈ pre, Pristine l := by
  intro l hl
  obtain ⟨a, b, rfl⟩ := List.append_of_mem hl
  refine h.before a l (b ++ post) (by simp) fun q hq => ?_
  have := hlimit q hq
  simp only [List.length_append, List.length_cons] at this
  omega

/-- **Lines before an edit** come to the edit without any shift. -/
theorem Ready.arrive {pre post : List DocumentLine} (h : Ready limit walk (pre ++ post))
    (hlimit : ∀ q ∈ limit, pre.length ≤ q.line) :
    through 0 pre = 0 ∧ Leveled pre.length 0 post ∧ spots 0 (pre ++ post) = spots 0 pre ++ spots 0 post ∧
      ∀ post', Leveled pre.length 0 post' → Leveled 0 0 (pre ++ post') := by
  have hpre := h.pristine hlimit
  have hthrough : through 0 pre = 0 := through_still fun l hl => (hpre l hl).still
  have hcount : (0 : Int) + liveCount pre = pre.length := by rw [liveCount_pristine hpre, zero_add]
  obtain ⟨hfront, hback⟩ := (leveled_append 0 0 pre post).1 h.leveled
  rw [hthrough, hcount] at hback
  refine ⟨hthrough, hback, by rw [spots_append, hthrough], fun post' hpost' => ?_⟩
  rw [leveled_append, hthrough, hcount]
  exact ⟨hfront, hpost'⟩

theorem Ready.untouched {pre post : List DocumentLine} {l : DocumentLine} (h : Ready limit walk (pre ++ l :: post))
    {stop : Position} (hstop : pre.length = stop.line) (hlimit : ∀ q ∈ limit, stop.before q = true) :
    ∀ m ∈ l.marks, m.column ≤ stop.character → Untouched m := by
  intro m hm hcolumn
  by_cases hline : ∃ q ∈ limit, q.line = stop.line
  · obtain ⟨q, hq, hline⟩ := hline
    refine h.front pre l post rfl q hq (by omega) m hm ?_
    have := (Position.before_iff stop q).1 (hlimit q hq)
    omega
  · refine (h.before pre l post rfl fun q hq => ?_).marks m hm
    have := (Position.before_iff stop q).1 (hlimit q hq)
    have : q.line ≠ stop.line := fun heq => hline ⟨q, hq, heq⟩
    omega

/-- **Ready for the patches before.**  The front of the line where an edit starts keeps its marks, and the lines before it
keep everything. -/
theorem ready_of_front {start : Position} {pre post : List DocumentLine} {l : DocumentLine} {before after : List Mark}
    (hpre : pre.length = start.line) (hpristine : ∀ k ∈ pre, Pristine k) (hmarks : l.marks = before ++ after)
    (hbefore : ∀ m ∈ before, Untouched m) (hafter : ∀ m ∈ after, start.character ≤ m.column)
    (hleveled : Leveled 0 0 (pre ++ l :: post))
    (hwalk : walk.line = none ∨ (walk.left = before.length ∧ ∀ m ∈ after, start.character < m.column))
    (hline : ∀ i ∈ walk.line, i = pre.length) : Ready (some start) walk (pre ++ l :: post) := by
  have hsame : ∀ {a b : List DocumentLine} {x : DocumentLine}, pre ++ l :: post = a ++ x :: b → a.length = pre.length →
      x = l := by
    intro a b x heq hlen
    exact ((List.cons.inj (List.append_inj heq hlen.symm).2).1).symm
  refine ⟨hleveled, ?_, ?_, ?_⟩
  · intro a x b heq hlt
    have hlt : a.length < pre.length := hpre ▸ hlt start rfl
    have hx : (pre ++ l :: post)[a.length]? = some x := by simp [heq]
    rw [List.getElem?_append_left hlt] at hx
    exact hpristine x (List.mem_of_getElem? hx)
  · intro a x b heq q hq hlen m hm hlt
    obtain rfl : start = q := Option.some.inj hq
    obtain rfl := hsame heq (by omega)
    rw [hmarks] at hm
    rcases List.mem_append.1 hm with hm | hm
    · exact hbefore m hm
    · have := hafter m hm
      omega
  · intro a x b heq hwalked
    obtain rfl := hsame heq (hline _ hwalked)
    rcases hwalk with hnone | ⟨hleft, hbehind⟩
    · rw [hnone] at hwalked
      cases hwalked
    · refine ⟨start, rfl, by rw [hline _ hwalked, hpre], ?_⟩
      rw [hleft, hmarks, List.drop_left]
      exact hbehind

/-- **A shift keeps the marks' places in the unedited text.** -/
theorem marks_shiftFrom (l : DocumentLine) (before after : List Mark) (lines columns : Int) :
    ∃ after', (l.shiftFrom before after lines columns).marks = before ++ after' ∧
      after'.map Mark.mapping = after.map Mark.mapping := by
  cases after with
  | nil => exact ⟨[], by simp [DocumentLine.shiftFrom, DocumentLine.shift], rfl⟩
  | cons m after => exact ⟨m.shift lines columns :: after, rfl, rfl⟩

theorem mapping_delete (ms : List Mark) : (ms.map Mark.delete).map Mark.mapping = ms.map Mark.mapping := by
  rw [List.map_map]
  rfl

theorem columns_of_mappings {a b : List Mark} (h : a.map Mark.mapping = b.map Mark.mapping) {bound : Nat → Prop}
    (hb : ∀ m ∈ b, bound m.column) : ∀ m ∈ a, bound m.column := by
  intro m hm
  have hmem : m.mapping ∈ b.map Mark.mapping := h ▸ List.mem_map_of_mem hm
  obtain ⟨k, hk, heq⟩ := List.mem_map.1 hmem
  unfold Mark.column
  rw [← heq]
  exact hb k hk

/-! ## Spots before, inside and behind a patch -/

theorem Homed.line_of_mem_spots {a ls b : List DocumentLine} (h : Homed (mappingsOn (a ++ (ls ++ b)))) {shift : Int × Int}
    {s : Spot} (hs : s ∈ spots shift ls) : a.length ≤ s.mapping.line ∧ s.mapping.line < a.length + ls.length := by
  obtain ⟨pre, l, post, rfl, m, hm, hmapping⟩ := mem_spots hs
  have hassoc : a ++ (pre ++ l :: post ++ b) = a ++ pre ++ l :: (post ++ b) := by simp
  rw [hassoc] at h
  have hline := h.split.2 m hm
  rw [hmapping, hline]
  simp only [List.length_append, List.length_cons]
  omega

section Sides

variable {pre post : List DocumentLine} {l : DocumentLine} {p : Patch} {ms : List Mark}

/-- **Spots of a line's marks are on this line.** -/
theorem Homed.on_line (h : Homed (mappingsOn (pre ++ l :: post))) (hms : ∀ m ∈ ms, m ∈ l.marks) {shift : Int × Int}
    {s : Spot} (hs : s ∈ markSpots shift ms) : ∃ m ∈ ms, s.mapping.position = ⟨pre.length, m.column⟩ := by
  obtain ⟨m, hm, hmapping⟩ := mem_markSpots hs
  refine ⟨m, hm, ?_⟩
  rw [Mapping.position, hmapping, h.split.2 m (hms m hm)]
  rfl

theorem Homed.ahead (h : Homed (mappingsOn (pre ++ l :: post))) (hms : ∀ m ∈ ms, m ∈ l.marks) {shift shift' : Int × Int}
    {s : Spot} (hs : s ∈ spots shift pre ++ markSpots shift' ms) :
    s.mapping.position.line < pre.length ∨ ∃ m ∈ ms, s.mapping.position = ⟨pre.length, m.column⟩ := by
  rcases List.mem_append.1 hs with hs | hs
  · have hlines := (Homed.line_of_mem_spots (a := []) h hs).2
    rw [List.length_nil, Nat.zero_add] at hlines
    exact .inl hlines
  · exact .inr (h.on_line hms hs)

theorem Homed.behind (h : Homed (mappingsOn (pre ++ l :: post))) (hms : ∀ m ∈ ms, m ∈ l.marks) {shift : Int × Int}
    {s : Spot} (hs : s ∈ spots shift (backOf l ms :: post)) :
    pre.length < s.mapping.position.line ∨ ∃ m ∈ ms, s.mapping.position = ⟨pre.length, m.column⟩ := by
  rcases List.mem_append.1 hs with hs | hs
  · exact .inr (h.on_line hms hs)
  · have hassoc : pre ++ l :: post = pre ++ [l] ++ (post ++ []) := by simp
    rw [hassoc] at h
    have hlines := (h.line_of_mem_spots hs).1
    rw [List.length_append, List.length_singleton] at hlines
    exact .inl hlines

/-- **A patch spares the spots before its start.**  One at the start is spared too, unless the patch joins lines. -/
theorem Homed.spared (h : Homed (mappingsOn (pre ++ l :: post))) (hpre : pre.length = p.region.start.line)
    (hms : ∀ m ∈ ms, m ∈ l.marks) (hle : ∀ m ∈ ms, m.column ≤ p.region.start.character)
    (hlt : p.region.isSingleLine = true ∨ ∀ m ∈ ms, m.column < p.region.start.character) :
    ∀ s ∈ spots 0 pre ++ markSpots 0 ms,
      p.covers s.mapping.position = false ∧ p.precedes s.mapping.position = false := by
  intro s hs
  rcases h.ahead hms hs with hline | ⟨m, hm, hplace⟩
  · have hbefore : s.mapping.position.before p.region.start = true := by
      rw [Position.before_iff]
      omega
    exact Patch.spares (Position.before_upTo hbefore) (.inr hbefore)
  · rw [hplace, hpre]
    exact Patch.spares ((Position.upTo_iff _ _).2 (.inr ⟨rfl, hle m hm⟩))
      (hlt.imp_right fun hlt => (Position.before_iff _ _).2 (.inr ⟨rfl, hlt m hm⟩))

/-- **A patch moves the spots from its stop on**, if they are behind its start. -/
theorem Homed.moved (h : Homed (mappingsOn (pre ++ l :: post))) (hpre : pre.length = p.region.stop.line)
    (hregion : p.region.start.line ≤ p.region.stop.line) (hms : ∀ m ∈ ms, m ∈ l.marks)
    (hstart : ∀ m ∈ ms, p.region.start.before ⟨p.region.stop.line, m.column⟩ = true)
    (hstop : ∀ m ∈ ms, p.region.stop.character ≤ m.column) :
    ∀ s ∈ spots 0 (backOf l ms :: post),
      p.covers s.mapping.position = false ∧ p.precedes s.mapping.position = true := by
  intro s hs
  rcases h.behind hms hs with hline | ⟨m, hm, hplace⟩
  · exact Patch.precedes_behind ((Position.before_iff _ _).2 (.inl (by omega)))
      ((Position.upTo_iff _ _).2 (.inl (by omega)))
  · rw [hplace, hpre]
    exact Patch.precedes_behind (hstart m hm) ((Position.upTo_iff _ _).2 (.inr ⟨rfl, hstop m hm⟩))

end Sides

/-- **Spots of lines around a patch**: those in front of it, those it deletes, and those behind it. -/
theorem spots_around {p : Patch} {front hit : List Spot} {tail : List DocumentLine}
    (hfront : ∀ s ∈ front, p.covers s.mapping.position = false ∧ p.precedes s.mapping.position = false)
    (hhit : ∀ s ∈ hit, p.covers s.mapping.position = true)
    (htail : ∀ s ∈ spots 0 tail, p.covers s.mapping.position = false ∧ p.precedes s.mapping.position = true)
    (hlevel : Leveled ((p.region.stop.line : Int) + 1) 0 tail) :
    (front ++ (hit ++ spots 0 tail)).filterMap p.moveSpot = front ++ spots p.shift tail := by
  have hcarry := spots_add hlevel p.shift
  rw [zero_add] at hcarry
  rw [Patch.filterMap_moveSpot hfront hhit htail, hcarry]

/-! ## What an edit does to spots -/

/-- **One edit is made**: what the patches before it meet, and the spots. -/
structure Edited (p : Patch) (lines lines' : List DocumentLine) (walk' : MarkWalk) : Prop where
  ready : Ready (some p.region.start) walk' lines'
  mappings : mappingsOn lines' = mappingsOn lines
  spots : spots 0 lines' = (spots 0 lines).filterMap p.moveSpot

/-- **Spots behind marks without shifts.** -/
theorem spots_behind {l : DocumentLine} {before after : List Mark} (h : l.marks = before ++ after)
    (hbefore : shiftsOf before = 0) (shift : Int × Int) (ls : List DocumentLine) :
    spots shift (l :: ls) = markSpots (l.entering shift) before ++ spots (l.entering shift) (backOf l after :: ls) := by
  rw [spots_cut h, hbefore, add_zero]

theorem leveled_behind {l : DocumentLine} {before after : List Mark} (h : l.marks = before ++ after)
    (hbefore : shiftsOf before = 0) (count : Int) (shift : Int × Int) (ls : List DocumentLine) :
    Leveled count shift (l :: ls) ↔
      (∀ s ∈ markSpots (l.entering shift) before, s.place.1 = (if l.content.isSome then count else count - 1)) ∧
        Leveled (if l.content.isSome then count + 1 else count) (l.entering shift) (backOf l after :: ls) := by
  rw [leveled_cut h, hbefore, add_zero]

/-- **Deleted marks without shifts are as good as none.** -/
theorem spots_deleted (l : DocumentLine) {gone : List Mark} (hgone : shiftsOf gone = 0) (kept : List Mark)
    (shift : Int × Int) (ls : List DocumentLine) :
    spots shift (backOf l (gone.map Mark.delete ++ kept) :: ls) = spots shift (backOf l kept :: ls) := by
  rw [spots_behind (l := backOf l (gone.map Mark.delete ++ kept)) rfl (by rw [shiftsOf_delete, hgone]), markSpots_delete]
  rfl

theorem leveled_deleted (l : DocumentLine) {gone : List Mark} (hgone : shiftsOf gone = 0) (kept : List Mark) (count : Int)
    (shift : Int × Int) (ls : List DocumentLine) :
    Leveled count shift (backOf l (gone.map Mark.delete ++ kept) :: ls) ↔ Leveled count shift (backOf l kept :: ls) := by
  rw [leveled_behind (l := backOf l (gone.map Mark.delete ++ kept)) rfl (by rw [shiftsOf_delete, hgone]), markSpots_delete]
  exact and_iff_right fun s hs => absurd hs List.not_mem_nil

section Within

variable {l : DocumentLine} {before struck rest : List Mark} {post : List DocumentLine}

/-- **A line taken apart** at the start and at the stop of a patch within it. -/
theorem spots_apart (hmarks : l.marks = before ++ (struck ++ rest)) (hbefore : shiftsOf before = 0)
    (hstruck : shiftsOf struck = 0) :
    spots 0 (l :: post) = markSpots 0 before ++ (markSpots 0 struck ++ spots 0 (backOf l rest :: post)) := by
  rw [spots_behind hmarks hbefore, entering_zero, spots_behind (l := backOf l (struck ++ rest)) rfl hstruck]
  rfl

theorem leveled_apart (hmarks : l.marks = before ++ (struck ++ rest)) (hlive : l.content.isSome = true)
    (hbefore : shiftsOf before = 0) (hstruck : shiftsOf struck = 0) {count : Int} (h : Leveled count 0 (l :: post)) :
    (∀ s ∈ markSpots 0 before, s.place.1 = count) ∧ Leveled (count + 1) 0 (backOf l rest :: post) := by
  obtain ⟨hfront, hback⟩ := (leveled_behind hmarks hbefore _ _ _).1 h
  rw [entering_zero, if_pos hlive] at hfront hback
  exact ⟨hfront, ((leveled_behind (l := backOf l (struck ++ rest)) rfl hstruck _ _ _).1 hback).2⟩

/-- **A line with marks struck out**: behind its front stand the marks that are left, moved. -/
theorem spots_struck (hbefore : shiftsOf before = 0) (hstruck : shiftsOf struck = 0) (more : Int × Int) :
    spots 0 (l.shiftFrom before (struck.map Mark.delete ++ rest) more.1 more.2 :: post) =
      markSpots 0 before ++ spots more (backOf l rest :: post) := by
  rw [spots_shiftFrom, spots_deleted l hstruck, hbefore, entering_zero, add_zero, zero_add]

theorem leveled_struck (hlive : l.content.isSome = true) (hbefore : shiftsOf before = 0) (hstruck : shiftsOf struck = 0)
    (more : Int × Int) {count : Int} (hfront : ∀ s ∈ markSpots 0 before, s.place.1 = count)
    (hrest : Leveled (count + 1) more (backOf l rest :: post)) :
    Leveled count 0 (l.shiftFrom before (struck.map Mark.delete ++ rest) more.1 more.2 :: post) := by
  rw [leveled_shiftFrom, leveled_deleted l hstruck, hbefore, entering_zero, add_zero, zero_add, if_pos hlive, if_pos hlive]
  exact ⟨hfront, hrest⟩

end Within

/-- **A patch within one line.** -/
theorem edited_within {lines : List DocumentLine} {p : Patch} (hready : Ready limit walk lines)
    (hhomed : Homed (mappingsOn lines)) (hlimit : ∀ q ∈ limit, p.region.stop.before q = true)
    (hstart : HoldsIn lines p.region.start) (hline : p.region.stop.line = p.region.start.line)
    (hle : p.region.start.character ≤ p.region.stop.character) :
    Edited p lines (edit true lines walk p).1 (edit true lines walk p).2 := by
  obtain ⟨pre, l, post, c, rfl, hpre, hc, -⟩ := hstart.split
  have hstop : pre.length = p.region.stop.line := hpre.trans hline.symm
  have hlines : ∀ q ∈ limit, pre.length ≤ q.line := by
    intro q hq
    have := (Position.before_iff _ _).1 (hlimit q hq)
    omega
  obtain ⟨hthrough, hlevel, hspots, hrelevel⟩ := hready.arrive hlines
  have hwalked : walk.line = some p.region.start.line → ∀ m ∈ l.marks.drop walk.left,
      p.region.start.character < m.column ∧ p.region.stop.character ≤ m.column := by
    intro hwalk m hm
    obtain ⟨q, hq, hqline, hbehind⟩ := hready.walked pre l post rfl (by rw [hwalk, hpre])
    have := (Position.before_iff _ _).1 (hlimit q hq)
    have := hbehind m hm
    omega
  have hsorted := hhomed.split.1
  obtain ⟨content, before, after, hmarks, hbefore, hafter, hedit⟩ := edit_within post hpre hline hc hsorted hwalked
  rw [hmarks] at hsorted
  obtain ⟨struck, rest, rfl, hstruck, hrest⟩ :=
    exists_split_at (List.pairwise_append.1 hsorted).2.1 p.region.stop.character
  rw [List.map_append, map_strike_of_lt hstruck, map_strike_of_le hrest] at hedit
  -- nothing up to where the patch stops has been shifted before
  have huntouched := hready.untouched hstop hlimit
  have hbeforeU : ∀ m ∈ before, Untouched m := fun m hm =>
    huntouched m (by rw [hmarks]; simp [hm]) (Nat.le_trans (hbefore m hm) hle)
  have hbefore0 : shiftsOf before = 0 := shiftsOf_untouched hbeforeU
  have hstruck0 : shiftsOf struck = 0 := shiftsOf_untouched fun m hm =>
    huntouched m (by rw [hmarks]; simp [hm]) (Nat.le_of_lt (hstruck m hm))
  obtain ⟨hlevelBefore, hlevelRest⟩ := leveled_apart hmarks (by rw [hc]; rfl) hbefore0 hstruck0 hlevel
  obtain ⟨after', hmarks', hsame⟩ := marks_shiftFrom { l with content := some content } before
    (struck.map Mark.delete ++ rest) p.shift.1 p.shift.2
  rw [List.map_append, mapping_delete, ← List.map_append] at hsame
  have hafter' : ∀ m ∈ after', p.region.start.character < m.column := columns_of_mappings hsame hafter
  rw [hedit]
  refine ⟨?_, ?_, ?_⟩
  · refine ready_of_front hpre (hready.pristine hlines) hmarks' hbeforeU (fun m hm => Nat.le_of_lt (hafter' m hm))
      (hrelevel _ ?_) (.inr ⟨rfl, hafter'⟩) (by intro i hi; rw [hpre]; exact (Option.some.inj hi).symm)
    have hflat : p.shift.1 = 0 := by
      simp only [Patch.shift, hline]
      omega
    have hmoved := leveled_add hlevelRest hflat
    rw [add_zero, zero_add] at hmoved
    exact leveled_struck rfl hbefore0 hstruck0 _ hlevelBefore hmoved
  · rw [mappingsOn_split, mappingsOn_split, hmarks', hmarks, List.map_append, List.map_append, hsame]
  · rw [hspots, spots_apart hmarks hbefore0 hstruck0, ← List.append_assoc, spots_around, spots_append, hthrough,
      spots_struck hbefore0 hstruck0, List.append_assoc]
    · rfl
    · exact hhomed.spared hpre (fun m hm => by simp [hmarks, hm]) hbefore (.inl (by simp [Region.isSingleLine, hline]))
    · intro s hs
      obtain ⟨m, hm, hplace⟩ := hhomed.on_line (fun m hm => by simp [hmarks, hm]) hs
      have hbehind : p.region.start.before ⟨pre.length, m.column⟩ = true :=
        (Position.before_iff _ _).2 (.inr ⟨hpre.symm, hafter m (by simp [hm])⟩)
      rw [hplace]
      exact Patch.covers_between (Position.before_upTo hbehind)
        ((Position.before_iff _ _).2 (.inr ⟨hstop, hstruck m hm⟩)) (.inr hbehind)
    · exact hhomed.moved hstop (Nat.le_of_eq hline.symm) (fun m hm => by simp [hmarks, hm])
        (fun m hm => (Position.before_iff _ _).2 (.inr ⟨hline.symm, hafter m (by simp [hm])⟩)) hrest
    · rw [← hstop]
      exact hlevelRest

theorem joined_still {l : DocumentLine} (h : Pristine l) : Still (joined l) := by
  rw [Still, joined, shiftsOf_delete]
  exact h.still

/-- **Lines joined to one before have no spots.** -/
theorem spots_joined (ls : List DocumentLine) (count : Int) (shift : Int × Int) :
    spots shift (ls.map joined) = [] ∧ Leveled count shift (ls.map joined) ∧ liveCount (ls.map joined) = 0 := by
  induction ls generalizing shift with
  | nil => exact ⟨rfl, trivial, rfl⟩
  | cons l ls ih =>
    have hnone : markSpots ((joined l).entering shift) (joined l).marks = [] := markSpots_delete ..
    obtain ⟨hspots, hlevel, hcount⟩ := ih ((joined l).leaving shift)
    refine ⟨?_, ⟨?_, hlevel⟩, ?_⟩
    · rw [List.map_cons, spots, hnone, hspots]
      rfl
    · rw [hnone]
      intro s hs
      cases hs
    · unfold liveCount at hcount ⊢
      rw [List.map_cons, List.countP_cons_of_neg (by simp [joined])]
      exact hcount

theorem through_joined {ls : List DocumentLine} (h : ∀ l ∈ ls, Pristine l) : through 0 (ls.map joined) = 0 := by
  refine through_still fun k hk => ?_
  obtain ⟨l, hl, rfl⟩ := List.mem_map.1 hk
  exact joined_still (h l hl)

theorem mappingsOn_joined (ls : List DocumentLine) : mappingsOn (ls.map joined) = mappingsOn ls := by
  unfold mappingsOn
  rw [List.map_map]
  exact List.map_congr_left fun l _ => mapping_delete l.marks

section Across

variable {l m : DocumentLine} {before after gone kept : List Mark} {pre mid post : List DocumentLine}

/-- **Lines taken apart** at the start and at the stop of a patch over them. -/
theorem spots_apart_lines (hl : l.marks = before ++ after) (hbefore : shiftsOf before = 0) (hstill : l.leaving 0 = 0)
    (hmid : ∀ k ∈ mid, Pristine k) (hm : m.marks = gone ++ kept) (hgone : shiftsOf gone = 0) :
    spots 0 (l :: (mid ++ m :: post)) = markSpots 0 before ++
      (markSpots 0 after ++ spots 0 mid ++ markSpots 0 gone ++ spots 0 (backOf m kept :: post)) := by
  rw [spots, hstill, hl, markSpots_append, hbefore, spots_append, through_still fun k hk => (hmid k hk).still,
    spots_behind hm hgone]
  simp only [entering_zero, add_zero, List.append_assoc]

/-- **Joined lines are passed without a trace**: behind the front of the first one stand the marks that are kept of the
last one. -/
theorem spots_join (hmarks : l.marks = before ++ after.map Mark.delete) (hstill : l.leaving 0 = 0)
    (hmid : ∀ k ∈ mid, Pristine k) (hgone : shiftsOf gone = 0) (more : Int × Int) :
    spots 0 (l :: (mid.map joined ++ m.shiftFrom (gone.map Mark.delete) kept more.1 more.2 :: post)) =
      markSpots 0 before ++ spots more (backOf m kept :: post) := by
  rw [spots, hstill, hmarks, markSpots_append, markSpots_delete, spots_append, (spots_joined mid 0 0).1,
    through_joined hmid, spots_shiftFrom, markSpots_delete, shiftsOf_delete, hgone]
  simp only [entering_zero, add_zero, zero_add, List.append_nil, List.nil_append]

theorem leveled_join (hmarks : l.marks = before ++ after.map Mark.delete) (hlive : l.content.isSome = true)
    (hstill : l.leaving 0 = 0) (hmid : ∀ k ∈ mid, Pristine k) (hm : m.content = none) (hgone : shiftsOf gone = 0)
    (more : Int × Int) {count : Int} (hbefore : ∀ s ∈ markSpots 0 before, s.place.1 = count)
    (hkept : Leveled (count + 1) more (backOf m kept :: post)) :
    Leveled count 0 (l :: (mid.map joined ++ m.shiftFrom (gone.map Mark.delete) kept more.1 more.2 :: post)) := by
  obtain ⟨-, hlevel, hcount⟩ := spots_joined mid (count + 1) 0
  refine ⟨?_, ?_⟩
  · rw [hmarks, markSpots_append, markSpots_delete, List.append_nil, entering_zero, if_pos hlive]
    exact hbefore
  · rw [hstill, if_pos hlive, leveled_append, through_joined hmid, hcount, add_zero, leveled_shiftFrom, markSpots_delete,
      shiftsOf_delete, hgone, entering_zero, zero_add, zero_add, hm]
    exact ⟨hlevel, fun s hs => absurd hs List.not_mem_nil, hkept⟩

/-- **A patch over several lines deletes the spots between its start and its stop.** -/
theorem Homed.removed {p : Patch} (h : Homed (mappingsOn (pre ++ l :: (mid ++ m :: post))))
    (hpre : pre.length = p.region.start.line) (hmid : pre.length + 1 + mid.length = p.region.stop.line)
    (hl : ∀ k ∈ after, k ∈ l.marks) (hafter : ∀ k ∈ after, p.region.start.character ≤ k.column)
    (hm : ∀ k ∈ gone, k ∈ m.marks) (hgone : ∀ k ∈ gone, k.column < p.region.stop.character) :
    ∀ s ∈ markSpots 0 after ++ spots 0 mid ++ markSpots 0 gone, p.covers s.mapping.position = true := by
  intro s hs
  have hmany : p.region.isSingleLine = false := by
    simp only [Region.isSingleLine, beq_eq_false_iff_ne]
    omega
  suffices hbetween : p.region.start.upTo s.mapping.position = true ∧ s.mapping.position.before p.region.stop = true from
    Patch.covers_between hbetween.1 hbetween.2 (.inl hmany)
  rw [Position.upTo_iff, Position.before_iff]
  rcases List.mem_append.1 hs with hs | hs
  · rcases List.mem_append.1 hs with hs | hs
    · obtain ⟨k, hk, hplace⟩ := h.on_line hl hs
      have := hafter k hk
      rw [hplace]
      dsimp only
      omega
    · have hsplit : pre ++ l :: (mid ++ m :: post) = pre ++ [l] ++ (mid ++ m :: post) := by simp
      rw [hsplit] at h
      have hlines := h.line_of_mem_spots hs
      simp only [List.length_append, List.length_singleton] at hlines
      dsimp only [Mapping.position]
      omega
  · have hsplit : pre ++ l :: (mid ++ m :: post) = pre ++ l :: mid ++ m :: post := by simp
    rw [hsplit] at h
    obtain ⟨k, hk, hplace⟩ := h.on_line hm hs
    have := hgone k hk
    rw [hplace]
    simp only [List.length_append, List.length_cons]
    omega

end Across

/-- **A patch over several lines.** -/
theorem edited_across {lines : List DocumentLine} {p : Patch} (hready : Ready limit walk lines)
    (hhomed : Homed (mappingsOn lines)) (hlimit : ∀ q ∈ limit, p.region.stop.before q = true)
    (hstart : HoldsIn lines p.region.start) (hstop : HoldsIn lines p.region.stop)
    (hlt : p.region.start.line < p.region.stop.line) :
    Edited p lines (edit true lines walk p).1 (edit true lines walk p).2 := by
  obtain ⟨pre, l, mid, m, post, c, e, rfl, hpre, hc, -, hmid, he, -⟩ := hstart.split_two hstop hlt
  have hassoc : pre ++ l :: (mid ++ m :: post) = pre ++ l :: mid ++ m :: post := by simp
  have hlength : (pre ++ l :: mid).length = p.region.stop.line := by
    simp only [List.length_append, List.length_cons]
    omega
  have hlines : ∀ q ∈ limit, p.region.stop.line ≤ q.line := by
    intro q hq
    have := (Position.before_iff _ _).1 (hlimit q hq)
    omega
  -- the same lines, seen from the one where the patch stops
  have hready' := hready
  have hhomed' := hhomed
  rw [hassoc] at hready' hhomed'
  obtain ⟨content, before, after, gone, kept, hmarks, hbefore, hafter, hmarks', hgone, hkept, hedit⟩ :=
    edit_across post walk hpre hmid hc he hhomed.split.1 hhomed'.split.1
  -- all before the place where the patch stops is as it was
  have hpristine := hready'.pristine (hlength ▸ hlines)
  have hl : Pristine l := hpristine l (by simp)
  have hpristineMid : ∀ k ∈ mid, Pristine k := fun k hk => hpristine k (by simp [hk])
  have huntouched : ∀ k ∈ before ++ after, Untouched k := hmarks ▸ hl.marks
  have hbefore0 : shiftsOf before = 0 := shiftsOf_untouched fun k hk => huntouched k (by simp [hk])
  have hgone0 : shiftsOf gone = 0 := shiftsOf_untouched fun k hk =>
    hready'.untouched hlength hlimit k (by rw [hmarks']; simp [hk]) (Nat.le_of_lt (hgone k hk))
  obtain ⟨hthrough, hlevel, hspots, hrelevel⟩ := hready.arrive fun q hq => by have := hlines q hq; omega
  obtain ⟨-, hlevel', -, -⟩ := hready'.arrive (hlength ▸ hlines)
  obtain ⟨hlevelBefore, -⟩ := (leveled_behind hmarks hbefore0 _ _ _).1 hlevel
  rw [entering_zero, if_pos hl.live] at hlevelBefore
  have hlevelKept : Leveled ((p.region.stop.line : Int) + 1) 0 (backOf m kept :: post) := by
    have hback := ((leveled_behind hmarks' hgone0 _ _ _).1 hlevel').2
    rw [entering_zero, if_pos (by rw [he]; rfl), hlength] at hback
    exact hback
  obtain ⟨l', hl'⟩ : ∃ l' : DocumentLine, l' =
      { l with content := some content, ending := m.ending, marks := before ++ after.map Mark.delete } := ⟨_, rfl⟩
  obtain ⟨m', hm'⟩ : ∃ m' : DocumentLine, m' = { m with content := none, ending := .nothing } := ⟨_, rfl⟩
  have hmarksNew : l'.marks = before ++ after.map Mark.delete := by rw [hl']
  have hstill : l'.leaving 0 = 0 := by
    refine Still.leaving ?_
    rw [Still, hl', shiftsOf_append, shiftsOf_delete, ← shiftsOf_append, ← hmarks]
    exact hl.still
  rw [hedit, ← hl', ← hm']
  refine ⟨?_, ?_, ?_⟩
  · refine ready_of_front hpre (fun k hk => hpristine k (by simp [hk])) hmarksNew (fun k hk => huntouched k (by simp [hk]))
      (columns_of_mappings (mapping_delete after) hafter) (hrelevel _ ?_) (.inl rfl) (by simp)
    refine leveled_join hmarksNew (by rw [hl']; rfl) hstill hpristineMid (by rw [hm']) hgone0 _ hlevelBefore ?_
    have hmoved := leveled_add hlevelKept (show p.shift.1 = (pre.length : Int) - p.region.stop.line by
      rw [Patch.shift, hpre])
    have hcount : (p.region.stop.line : Int) + 1 + ((pre.length : Int) - p.region.stop.line) = (pre.length : Int) + 1 := by
      omega
    rw [hcount, zero_add] at hmoved
    rw [hm']
    exact hmoved
  · obtain ⟨kept', hmarksKept, hsame⟩ := marks_shiftFrom m' (gone.map Mark.delete) kept p.shift.1 p.shift.2
    rw [mappingsOn_split, mappingsOn_split, mappingsOn_split, mappingsOn_split, hmarksKept, hmarksNew, hmarks, hmarks',
      mappingsOn_joined]
    simp only [List.map_append, mapping_delete, hsame]
  · rw [hspots, spots_apart_lines hmarks hbefore0 hl.still.leaving hpristineMid hmarks' hgone0, ← List.append_assoc,
      spots_around _ _ _ hlevelKept, spots_append, hthrough, spots_join hmarksNew hstill hpristineMid hgone0,
      List.append_assoc, hm']
    · rfl
    · exact hhomed.spared hpre (fun k hk => by simp [hmarks, hk]) (fun k hk => Nat.le_of_lt (hbefore k hk)) (.inr hbefore)
    · exact hhomed.removed hpre hmid (fun k hk => by simp [hmarks, hk]) hafter (fun k hk => by simp [hmarks', hk]) hgone
    · exact hhomed'.moved hlength (Nat.le_of_lt hlt) (fun k hk => by simp [hmarks', hk])
        (fun k hk => (Position.before_iff _ _).2 (.inl hlt)) hkept

/-- **One edit**, with nothing changed up to where its patch stops. -/
theorem edited {lines : List DocumentLine} {p : Patch} (hready : Ready limit walk lines)
    (hhomed : Homed (mappingsOn lines)) (hlimit : ∀ q ∈ limit, p.region.stop.before q = true)
    (hstart : HoldsIn lines p.region.start) (hstop : HoldsIn lines p.region.stop)
    (hle : p.region.start.upTo p.region.stop = true) :
    Edited p lines (edit true lines walk p).1 (edit true lines walk p).2 := by
  rcases (Position.upTo_iff _ _).1 hle with hlt | ⟨heq, hchar⟩
  · exact edited_across hready hhomed hlimit hstart hstop hlt
  · exact edited_within hready hhomed hlimit hstart heq.symm hchar

/-- **What patches do to a spot**, the last one first. -/
def moveSpots : List Patch → Spot → Option Spot
  | [], s => some s
  | p :: ps, s => (moveSpots ps s).bind p.moveSpot

theorem moveSpots_append_singleton (ps : List Patch) (p : Patch) (s : Spot) :
    moveSpots (ps ++ [p]) s = (p.moveSpot s).bind (moveSpots ps) := by
  induction ps with
  | nil => simp [moveSpots]
  | cons q ps ih =>
    rw [List.cons_append, moveSpots, ih, Option.bind_assoc]
    rfl

/-- **Edits from the last patch to the first move spots patch by patch.** -/
theorem spots_edits (sorted : List Patch) {lines : List DocumentLine} (happ : Applicable lines sorted)
    (hready : Ready limit walk lines) (hhomed : Homed (mappingsOn lines))
    (hlimit : ∀ p ∈ sorted, ∀ q ∈ limit, p.region.stop.before q = true) :
    Leveled 0 0 (edits true lines walk sorted.reverse) ∧
      spots 0 (edits true lines walk sorted.reverse) = (spots 0 lines).filterMap (moveSpots sorted) := by
  induction sorted using List.reverseRecOn generalizing lines limit walk with
  | nil => exact ⟨hready.leveled, List.filterMap_some.symm⟩
  | append_singleton ps p ih =>
    have hp := happ.held p (by simp)
    have hedited := edited hready hhomed (hlimit p (by simp)) hp.1 hp.2 (happ.ordered p (by simp))
    rw [List.reverse_append, List.reverse_singleton, List.singleton_append, edits]
    obtain ⟨hleveled, hspots⟩ := ih (happ.splice.1.congr (outline_edit true lines walk p).symm) hedited.ready
      (hedited.mappings ▸ hhomed) fun q hq r hr => Option.some.inj hr ▸ happ.before_last hq
    refine ⟨hleveled, hspots.trans ?_⟩
    rw [hedited.spots, List.filterMap_filterMap]
    exact congrArg (List.filterMap · _) (funext fun s => (moveSpots_append_singleton ps p s).symm)

end Document
end Localizer
