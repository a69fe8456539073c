import Localizer.Proofs.Splice
/-!
# InPlace — edits with every access checked

`Document.edit` says what becomes of all lines at once and has an answer for everything, also for lines and columns that
are not there.  Here the same edit is made in place, one line after the other, and stops (`none`) at the first line that
is missing, at a cut inside a character and at a difference below zero.  `InPlace.edits_eq` says that it never stops as
long as the patches end on lines that are there, and that it does what `Document.edits` does.  Shifts are exact here, too:
lines and columns are taken to be below `2 ^ 63`.
-/
namespace Localizer

open Text (Ending unitLength byteOffset dropBytes takeBytes takeUnits dropUnits)

/-! ## Cuts at columns are between characters -/

namespace Text

theorem dropBytes_byteOffset (cs : List Char) (n : Nat) : dropBytes cs (byteOffset cs n) = some (dropUnits cs n) := by
  induction cs generalizing n with
  | nil => rfl
  | cons c cs ih =>
    have hpos : 0 < c.utf8Size := Char.utf8Size_pos c
    unfold byteOffset dropUnits
    split
    · rw [dropBytes, if_pos (by omega), Nat.add_sub_cancel_left, ih]
      omega
    · simp [dropBytes]

theorem takeBytes_byteOffset (cs : List Char) (n : Nat) : takeBytes cs (byteOffset cs n) = takeUnits cs n := by
  induction cs generalizing n with
  | nil => rfl
  | cons c cs ih =>
    have hpos : 0 < c.utf8Size := Char.utf8Size_pos c
    unfold byteOffset takeUnits takeBytes
    split
    · rw [if_pos (by omega), Nat.add_sub_cancel_left, ih]
    · rw [if_neg (by omega)]

end Text

namespace Document
namespace InPlace

/-! ## The edit in place -/

/-- **Change one line.** -/
def changeLine (lines : List DocumentLine) (i : Nat) (f : DocumentLine → DocumentLine) : Option (List DocumentLine) :=
  (lines[i]?).map fun l => lines.set i (f l)

/-- **Change the lines from one on and before another.** -/
def changeLines (lines : List DocumentLine) (lo hi : Nat) (f : DocumentLine → DocumentLine) :
    Option (List DocumentLine) :=
  if lo ≤ hi ∧ hi ≤ lines.length then some (lines.mapIdx fun i l => if lo ≤ i ∧ i < hi then f l else l) else none

/-- **The text before byte `n`**, if a character starts there or the text ends there. -/
def textBefore (cs : List Char) (n : Nat) : Option (List Char) := (dropBytes cs n).map fun _ => takeBytes cs n

/-- **A difference that is not below zero.** -/
def minus (a b : Nat) : Option Nat := if b ≤ a then some (a - b) else none

/-- **Put a patch's content in place of its region.** -/
def splice (lines : List DocumentLine) (p : Patch) : Option (List DocumentLine) := do
  let start := p.region.start
  let stop := p.region.stop
  let stopLine ← lines[stop.line]?
  let suffix ← dropBytes stopLine.contentOrEmpty (byteOffset stopLine.contentOrEmpty stop.character)
  let startLine ← lines[start.line]?
  let front ← textBefore startLine.contentOrEmpty (byteOffset startLine.contentOrEmpty start.character)
  let lines ← changeLine lines start.line fun l => { l with content := some (front ++ p.content ++ suffix) }
  if start.line < stop.line then
    let lines ← changeLine lines stop.line fun l => { l with ending := .nothing }
    let lines ← changeLines lines (start.line + 1) (stop.line + 1) fun l => { l with content := none }
    changeLine lines start.line fun l => { l with ending := stopLine.ending }
  else some lines

/-- **Walk back over the first marks of a line** to a column, and delete those before `stop`; with the number of marks
that are left. -/
def walkBack (start stop : Nat) (marks : List Mark) : (left : Nat) → Option (List Mark × Nat)
  | 0 => some (marks, 0)
  | left + 1 => do
    let m ← marks[left]?
    if m.column ≤ start then some (marks, left + 1)
    else walkBack start stop (if m.column < stop then marks.set left m.delete else marks) left

/-- **Delete the first marks.** -/
def deleteFirst (marks : List Mark) (n : Nat) : Option (List Mark) :=
  if n ≤ marks.length then some ((marks.take n).map Mark.delete ++ marks.drop n) else none

/-- **Move the marks after a patch within one line.** -/
def shiftWithin (lines : List DocumentLine) (p : Patch) (walk : MarkWalk) : Option (List DocumentLine × MarkWalk) := do
  let start := p.region.start
  let stop := p.region.stop
  let l ← lines[start.line]?
  let left := if walk.line == some start.line then walk.left else l.marks.length
  let (marks, left) ← walkBack start.character stop.character l.marks left
  let width ← minus stop.character start.character
  let columns : Int := (unitLength p.content : Int) - width
  let lines ← changeLine lines start.line fun l =>
    match marks[left]? with
    | some m => { l with marks := marks.set left (m.shift 0 columns) }
    | none => { l with marks := marks }.shift 0 columns
  return (lines, ⟨some start.line, left⟩)

/-- **Delete the marks of a line before a column**, and shift those that are left. -/
def shiftKept (l : DocumentLine) (column : Nat) (rows columns : Int) : Option DocumentLine := do
  let first := l.marks.findIdx? fun m => !Nat.blt m.column column
  let marks ← deleteFirst l.marks (first.getD l.marks.length)
  match first with
  | some i =>
    let m ← marks[i]?
    return { l with marks := marks.set i (m.shift rows columns) }
  | none => return { l with marks := marks }.shift rows columns

/-- **Move the marks after a patch over several lines.** -/
def shiftAcross (lines : List DocumentLine) (p : Patch) : Option (List DocumentLine) := do
  let start := p.region.start
  let stop := p.region.stop
  let lines ← changeLine lines start.line fun l => { l with marks := deleteFrom start.character l.marks }
  let lines ← changeLines lines (start.line + 1) stop.line fun l => { l with marks := l.marks.map Mark.delete }
  let stopLine ← shiftKept (← lines[stop.line]?) stop.character ((start.line : Int) - (stop.line : Int))
    ((start.character : Int) - (stop.character : Int) + (unitLength p.content : Int))
  changeLine lines stop.line fun _ => stopLine

/-- **One edit**, in a document with or without a map. -/
def edit (mapped : Bool) (lines : List DocumentLine) (walk : MarkWalk) (p : Patch) :
    Option (List DocumentLine × MarkWalk) := do
  let lines ← splice lines p
  if !mapped then return (lines, walk)
  else if p.region.isSingleLine then shiftWithin lines p walk
  else return (← shiftAcross lines p, { walk with line := none })

/-- **Edits one after another.** -/
def edits (mapped : Bool) : List DocumentLine → MarkWalk → List Patch → Option (List DocumentLine)
  | lines, _, [] => some lines
  | lines, walk, p :: ps => do
    let (lines, walk) ← edit mapped lines walk p
    edits mapped lines walk ps

/-- **Apply patches in place**: how it went, and the document as it is afterwards. -/
def apply (d : Document) (patches : List Patch) : Option (Except EditError Unit × Document) :=
  let sorted := sortPatches patches
  match d.refusal? sorted with
  | some e => some (.error e, d)
  | none => do
    let lines ← edits d.header.isSome d.lines ⟨none, 0⟩ sorted.reverse
    return (.ok (), { d with lines := lines })

/-! ## It does the same -/

theorem changeLine_eq {lines : List DocumentLine} {i : Nat} (h : i < lines.length) (f : DocumentLine → DocumentLine) :
    changeLine lines i f = some (lines.mapIdx fun j l => if j = i then f l else l) := by
  unfold changeLine
  rw [List.getElem?_eq_getElem h, Option.map_some]
  congr 1
  refine List.ext_getElem? fun j => ?_
  rw [List.getElem?_set, List.getElem?_mapIdx]
  split
  · rename_i hij
    subst hij
    simp [List.getElem?_eq_getElem h]
  · rename_i hij
    cases lines[j]? with
    | none => rfl
    | some l => simp [Ne.symm hij]

theorem changeLines_eq {lines : List DocumentLine} {lo hi : Nat} (hlo : lo ≤ hi) (hhi : hi ≤ lines.length)
    (f : DocumentLine → DocumentLine) :
    changeLines lines lo hi f = some (lines.mapIdx fun i l => if lo ≤ i ∧ i < hi then f l else l) :=
  if_pos ⟨hlo, hhi⟩

theorem textBefore_byteOffset (cs : List Char) (n : Nat) : textBefore cs (byteOffset cs n) = some (takeUnits cs n) := by
  rw [textBefore, Text.dropBytes_byteOffset, Option.map_some, Text.takeBytes_byteOffset]

theorem splice_eq {lines : List DocumentLine} {p : Patch} (hle : p.region.start.line ≤ p.region.stop.line)
    (hstop : p.region.stop.line < lines.length) : splice lines p = some (Document.splice lines p) := by
  have hstart : p.region.start.line < lines.length := by omega
  unfold splice Document.splice
  simp only [List.getElem?_eq_getElem hstop, List.getElem?_eq_getElem hstart, Option.bind_eq_bind, Option.bind_some,
    Text.dropBytes_byteOffset, textBefore_byteOffset, Option.getD_some]
  split
  · rename_i hlt
    rw [changeLine_eq hstart, Option.bind_some, changeLine_eq (by simpa using hstop), Option.bind_some,
      changeLines_eq (by omega) (by simp only [List.length_mapIdx]; omega), Option.bind_some,
      changeLine_eq (by simpa using hstart)]
    simp only [List.mapIdx_mapIdx]
    congr 1
    refine List.ext_getElem? fun i => ?_
    simp only [List.getElem?_mapIdx]
    cases hl : lines[i]? with
    | none => rfl
    | some l =>
      simp only [Option.map_some, Function.comp_apply, Option.some.injEq]
      rcases Nat.lt_trichotomy i p.region.start.line with hi | rfl | hi
      · grind
      · grind
      · grind
  · rename_i hlt
    rw [changeLine_eq hstart, Option.bind_some]
    congr 1
    refine List.ext_getElem? fun i => ?_
    simp only [List.getElem?_mapIdx]
    cases hl : lines[i]? with
    | none => rfl
    | some l =>
      simp only [Option.map_some, Option.some.injEq]
      grind

/-- **The walk over the marks before a number** is the walk over them from the last to the first. -/
theorem walkBack_eq (start stop : Nat) : ∀ (left : Nat) (marks : List Mark), left ≤ marks.length →
    walkBack start stop marks left =
      let (before, after) := walkMarks start stop (marks.take left).reverse (marks.drop left)
      some (before.reverse ++ after, before.length)
  | 0, marks, _ => by simp [walkBack, walkMarks]
  | left + 1, marks, h => by
    have hget : marks[left]? = some marks[left] := List.getElem?_eq_getElem h
    have htake : (marks.take (left + 1)).reverse = marks[left] :: (marks.take left).reverse := by
      rw [List.take_succ_eq_append_getElem h, List.reverse_append]
      rfl
    have hdrop : marks.drop left = marks[left] :: marks.drop (left + 1) := List.drop_eq_getElem_cons h
    unfold walkBack
    rw [hget, Option.bind_eq_bind, Option.bind_some, htake, walkMarks]
    split
    · have hlen : (marks.take left).length = left := by rw [List.length_take]; omega
      simp only [List.reverse_cons, List.reverse_reverse, List.append_assoc, List.singleton_append, ← hdrop,
        List.take_append_drop, List.length_cons, List.length_reverse, hlen]
    · split
      · rw [walkBack_eq start stop left _ (by rw [List.length_set]; omega), List.take_set_of_le (Nat.le_refl _),
          List.drop_set, if_neg (by omega), Nat.sub_self, hdrop, List.set_cons_zero]
      · rw [walkBack_eq start stop left marks (by omega), hdrop]

theorem shiftWithin_eq {lines : List DocumentLine} {p : Patch} {walk : MarkWalk}
    (hline : p.region.start.line < lines.length) (hle : p.region.start.character ≤ p.region.stop.character)
    (hwalk : walk.line = some p.region.start.line → walk.left ≤ lines[p.region.start.line].marks.length) :
    shiftWithin lines p walk = some (Document.shiftWithin lines p walk) := by
  have hleft : (if walk.line == some p.region.start.line then walk.left else lines[p.region.start.line].marks.length) ≤
      lines[p.region.start.line].marks.length := by
    split
    · rename_i h
      exact hwalk (eq_of_beq h)
    · exact Nat.le_refl _
  unfold shiftWithin Document.shiftWithin
  simp only [List.getElem?_eq_getElem hline, Option.bind_eq_bind, Option.bind_some, Option.getD_some,
    walkBack_eq _ _ _ _ hleft, minus, if_pos hle]
  generalize walkMarks p.region.start.character p.region.stop.character _ _ = walked
  obtain ⟨before, after⟩ := walked
  simp only [changeLine, List.getElem?_eq_getElem hline, Option.map_some, Option.bind_some, Option.pure_def]
  cases after with
  | nil => simp [DocumentLine.shiftFrom, Int.ofNat_sub hle]
  | cons m after =>
    simp [DocumentLine.shiftFrom, Int.ofNat_sub hle]

theorem findIdx?_not {α : Type} (p : α → Bool) (xs : List α) :
    (xs.findIdx? fun x => !p x) = if xs.dropWhile p = [] then none else some (xs.takeWhile p).length := by
  induction xs with
  | nil => rfl
  | cons x xs ih =>
    rw [List.findIdx?_cons]
    cases hx : p x with
    | false => simp [hx]
    | true =>
      simp only [hx, Bool.not_true, Bool.false_eq_true, if_false, ih, List.dropWhile_cons_of_pos, List.takeWhile_cons_of_pos]
      split <;> simp

theorem shiftKept_eq (l : DocumentLine) (column : Nat) (rows columns : Int) :
    shiftKept l column rows columns = some (l.shiftFrom
      ((l.marks.takeWhile fun m => Nat.blt m.column column).map Mark.delete)
      (l.marks.dropWhile fun m => Nat.blt m.column column) rows columns) := by
  have hmarks := List.takeWhile_append_dropWhile (p := fun m : Mark => Nat.blt m.column column) (l := l.marks)
  unfold shiftKept
  rw [findIdx?_not fun m : Mark => Nat.blt m.column column]
  cases hkept : l.marks.dropWhile fun m => Nat.blt m.column column with
  | nil =>
    have hgone : l.marks.takeWhile (fun m => Nat.blt m.column column) = l.marks := by simpa [hkept] using hmarks
    simp [deleteFirst, hgone, DocumentLine.shiftFrom]
  | cons m kept =>
    rw [hkept] at hmarks
    generalize l.marks.takeWhile (fun m => Nat.blt m.column column) = gone at hmarks
    have hdeleted : deleteFirst l.marks gone.length = some (gone.map Mark.delete ++ m :: kept) := by
      simp [deleteFirst, ← hmarks]
    simp [hdeleted, DocumentLine.shiftFrom]

theorem shiftAcross_eq {lines : List DocumentLine} {p : Patch} (hlt : p.region.start.line < p.region.stop.line)
    (hstop : p.region.stop.line < lines.length) : shiftAcross lines p = some (Document.shiftAcross lines p) := by
  have hstart : p.region.start.line < lines.length := by omega
  unfold shiftAcross Document.shiftAcross
  simp only [Option.bind_eq_bind]
  rw [changeLine_eq hstart, Option.bind_some, changeLines_eq (by omega) (by simp only [List.length_mapIdx]; omega),
    Option.bind_some, List.mapIdx_mapIdx, List.getElem?_mapIdx, List.getElem?_eq_getElem hstop, Option.map_some,
    Option.bind_some, shiftKept_eq, Option.bind_some, changeLine_eq (by simpa using hstop), List.mapIdx_mapIdx]
  congr 1
  refine List.ext_getElem? fun i => ?_
  simp only [List.getElem?_mapIdx]
  cases hl : lines[i]? with
  | none => rfl
  | some l =>
    simp only [Option.map_some, Function.comp_apply, Option.some.injEq]
    rcases Nat.lt_trichotomy i p.region.stop.line with hi | rfl | hi
    · grind
    · grind
    · grind

/-! ## One edit after another -/

/-- **A patch can be made in place**: it ends on a line that is there, at or after its start. -/
structure Fits (lines : List DocumentLine) (p : Patch) : Prop where
  ordered : p.region.start.upTo p.region.stop = true
  stop : p.region.stop.line < lines.length

/-- **A walk stands on a mark of its line, or behind the last one.** -/
def Standing (lines : List DocumentLine) (walk : MarkWalk) : Prop :=
  ∀ i l, walk.line = some i → lines[i]? = some l → walk.left ≤ l.marks.length

theorem length_splice (lines : List DocumentLine) (p : Patch) : (Document.splice lines p).length = lines.length := by
  unfold Document.splice
  rw [List.length_mapIdx]

theorem length_edit (mapped : Bool) (lines : List DocumentLine) (walk : MarkWalk) (p : Patch) :
    (Document.edit mapped lines walk p).1.length = lines.length := by
  unfold Document.edit
  split
  · exact length_splice ..
  split
  · unfold Document.shiftWithin
    rw [List.length_set, length_splice]
  · unfold Document.shiftAcross
    rw [List.length_mapIdx, length_splice]

theorem marks_splice {lines : List DocumentLine} {p : Patch} {i : Nat} {l : DocumentLine}
    (h : (Document.splice lines p)[i]? = some l) : ∃ l', lines[i]? = some l' ∧ l.marks = l'.marks := by
  unfold Document.splice at h
  rw [List.getElem?_mapIdx] at h
  obtain ⟨l', hl', rfl⟩ := Option.map_eq_some_iff.1 h
  refine ⟨l', hl', ?_⟩
  split
  · rfl
  split
  · rfl
  split <;> rfl

theorem length_le_shiftFrom (l : DocumentLine) (before after : List Mark) (rows columns : Int) :
    before.length ≤ (l.shiftFrom before after rows columns).marks.length := by
  cases after <;> simp [DocumentLine.shiftFrom, DocumentLine.shift]

theorem Standing.splice {lines : List DocumentLine} {walk : MarkWalk} (h : Standing lines walk) (p : Patch) :
    Standing (Document.splice lines p) walk := by
  intro i l hi hl
  obtain ⟨l', hl', hmarks⟩ := marks_splice hl
  rw [hmarks]
  exact h i l' hi hl'

theorem standing_shiftWithin (lines : List DocumentLine) (p : Patch) (walk : MarkWalk) :
    Standing (Document.shiftWithin lines p walk).1 (Document.shiftWithin lines p walk).2 := by
  intro i l hi hl
  simp only [Document.shiftWithin, Option.some.injEq] at hi hl ⊢
  subst hi
  rw [List.getElem?_set_self'] at hl
  obtain ⟨-, -, rfl⟩ := Option.map_eq_some_iff.1 hl
  rw [← List.length_reverse]
  exact length_le_shiftFrom ..

theorem Standing.edit {lines : List DocumentLine} {walk : MarkWalk} (h : Standing lines walk) (mapped : Bool) (p : Patch) :
    Standing (Document.edit mapped lines walk p).1 (Document.edit mapped lines walk p).2 := by
  unfold Document.edit
  split
  · exact h.splice p
  split
  · exact standing_shiftWithin (Document.splice lines p) p walk
  · intro i l hi
    cases hi

theorem edit_eq {mapped : Bool} {lines : List DocumentLine} {walk : MarkWalk} {p : Patch} (hp : Fits lines p)
    (hwalk : Standing lines walk) : edit mapped lines walk p = some (Document.edit mapped lines walk p) := by
  have hordered := (Text.Position.upTo_iff _ _).1 hp.ordered
  have hstop : p.region.stop.line < (Document.splice lines p).length := by
    rw [length_splice]
    exact hp.stop
  unfold edit Document.edit
  rw [splice_eq (by omega) hp.stop, Option.bind_eq_bind, Option.bind_some]
  split
  · rfl
  split
  · rename_i hsingle
    have hline : p.region.start.line = p.region.stop.line := by simpa [Text.Region.isSingleLine] using hsingle
    rw [shiftWithin_eq (by omega) (by omega)]
    intro hwalks
    exact hwalk.splice p _ _ hwalks (List.getElem?_eq_getElem _)
  · rename_i hsingle
    have hline : p.region.start.line ≠ p.region.stop.line := by simpa [Text.Region.isSingleLine] using hsingle
    rw [shiftAcross_eq (by omega) hstop]
    rfl

/-- **No edit goes wrong.** -/
theorem edits_eq (mapped : Bool) : ∀ (ps : List Patch) {lines : List DocumentLine} {walk : MarkWalk},
    (∀ p ∈ ps, Fits lines p) → Standing lines walk →
    edits mapped lines walk ps = some (Document.edits mapped lines walk ps)
  | [], _, _, _, _ => rfl
  | p :: ps, lines, walk, hps, hwalk => by
    unfold edits Document.edits
    rw [edit_eq (hps p (by simp)) hwalk, Option.bind_eq_bind, Option.bind_some]
    refine edits_eq mapped ps (fun q hq => ?_) (hwalk.edit mapped p)
    have hq := hps q (by simp [hq])
    exact ⟨hq.ordered, Nat.lt_of_lt_of_eq hq.stop (length_edit mapped lines walk p).symm⟩

/-- **Applying in place does what applying does**, and a refusal leaves the document as it was. -/
theorem apply_eq {d : Document} {patches : List Patch}
    (h : d.refusal? (sortPatches patches) = none → ∀ p ∈ sortPatches patches, Fits d.lines p) :
    apply d patches = some (match d.apply patches with
      | .ok d' => (.ok (), d')
      | .error e => (.error e, d)) := by
  cases href : d.refusal? (sortPatches patches) with
  | some e => simp only [apply, Document.apply, href]
  | none =>
    have hstart : Standing d.lines ⟨none, 0⟩ := by
      intro i l hi
      cases hi
    have hedits := edits_eq d.header.isSome (sortPatches patches).reverse
      (fun p hp => h href p (List.mem_reverse.1 hp)) hstart
    simp only [apply, Document.apply, href, hedits, Option.bind_eq_bind, Option.bind_some, Option.pure_def]

end InPlace
end Document
end Localizer
