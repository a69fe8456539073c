import Mathlib.Data.List.Induction
import Mathlib.Data.List.Permutation
import Localizer.Edit.Apply
import Localizer.Proofs.Replacement
/-!
# Splice — the text of a document after its patches

A patch is put into its line by columns, lines are joined, and the patches are taken from the last to the first, each on
the lines that the later ones left behind.  `Document.apply_replaces` says that all this amounts to replacing byte ranges
of the text at once: those between the offsets of the patches' positions in the document as it was.  The marks of a
source map have no part in it (`Document.outline_edits`).
-/
namespace Localizer

open Text (Position Region Ending ByteEdit Replaced unitLength byteLength takeUnits dropUnits unitsOf byteOffset)

namespace Text

/-! ## Positions in order -/

theorem Position.before_iff (a b : Position) :
    a.before b = true ↔ a.line < b.line ∨ (a.line = b.line ∧ a.character < b.character) := by
  simp [Position.before]

theorem Position.upTo_iff (a b : Position) :
    a.upTo b = true ↔ a.line < b.line ∨ (a.line = b.line ∧ a.character ≤ b.character) := by
  unfold Position.upTo
  rw [Bool.not_eq_true', ← Bool.not_eq_true, Position.before_iff]
  omega

theorem Position.upTo_before {a b c : Position} (h : a.upTo b = true) (h' : b.before c = true) : a.before c = true := by
  rw [Position.before_iff] at h' ⊢
  rw [Position.upTo_iff] at h
  omega

theorem Position.before_upTo {a b : Position} (h : a.before b = true) : a.upTo b = true := by
  rw [Position.before_iff] at h
  rw [Position.upTo_iff]
  omega

/-! ## Cutting a text at columns -/

theorem takeUnits_zero (cs : List Char) : takeUnits cs 0 = [] := by
  cases cs with
  | nil => rfl
  | cons c cs =>
    have := unitsOf_pos c
    rw [takeUnits, if_neg (by omega)]

theorem takeUnits_append_left : ∀ a b : List Char, takeUnits (a ++ b) (unitLength a) = a
  | [], b => takeUnits_zero b
  | c :: a, b => by
    simp only [List.cons_append, takeUnits, unitLength]
    rw [if_pos (by omega), Nat.add_sub_cancel_left, takeUnits_append_left a b]

theorem takeUnits_append_of_lt : ∀ (cs more : List Char) {k n : Nat}, k < n → n ≤ unitLength cs →
    takeUnits (takeUnits cs n ++ more) k = takeUnits cs k
  | [], _, k, n, hk, hn => by
    simp only [unitLength] at hn
    omega
  | c :: cs, more, k, n, hk, hn => by
    have hpos := unitsOf_pos c
    have htwo : unitsOf c ≤ 2 := by unfold unitsOf; split <;> omega
    simp only [unitLength] at hn
    by_cases hc : unitsOf c ≤ n
    · simp only [takeUnits, if_pos hc, List.cons_append]
      split
      · rename_i hck
        rw [takeUnits_append_of_lt cs more (by omega) (by omega)]
      · rfl
    · -- the column `n` is inside the first character, so `k` is zero
      obtain rfl : k = 0 := by omega
      rw [takeUnits_zero, takeUnits_zero]

theorem unitLength_takeUnits_of_lt : ∀ (cs : List Char) {k n : Nat}, k < n → n ≤ unitLength cs →
    k ≤ unitLength (takeUnits cs n)
  | [], k, n, hk, hn => by
    simp only [unitLength] at hn
    omega
  | c :: cs, k, n, hk, hn => by
    have htwo : unitsOf c ≤ 2 := by unfold unitsOf; split <;> omega
    simp only [unitLength] at hn
    simp only [takeUnits]
    split
    · rename_i hc
      simp only [unitLength]
      by_cases hk' : unitsOf c ≤ k
      · have := unitLength_takeUnits_of_lt cs (show k - unitsOf c < n - unitsOf c by omega) (by omega)
        omega
      · omega
    · have := unitsOf_pos c
      simp only [unitLength]
      omega

/-- **A later column has the earlier one's characters in front.** -/
theorem takeUnits_of_le : ∀ (cs : List Char) {m n : Nat}, m ≤ n → ∃ old, takeUnits cs n = takeUnits cs m ++ old
  | [], _, _, _ => ⟨[], rfl⟩
  | c :: cs, m, n, h => by
    by_cases hm : unitsOf c ≤ m
    · obtain ⟨old, ho⟩ := takeUnits_of_le cs (show m - unitsOf c ≤ n - unitsOf c by omega)
      refine ⟨old, ?_⟩
      simp only [takeUnits, if_pos hm, if_pos (Nat.le_trans hm h), ho, List.cons_append]
    · exact ⟨takeUnits (c :: cs) n, by simp [takeUnits, if_neg hm]⟩

end Text

namespace Document

/-! ## Lines and offsets -/

/-- **The lines without their marks.** -/
def outline (lines : List DocumentLine) : List (Option (List Char) × Ending) := lines.map fun l => (l.content, l.ending)

/-- **The text of lines.** -/
def linesText (lines : List DocumentLine) : List Char := lines.flatMap DocumentLine.text

/-- **The byte offset of a position**: all lines before its own, joined ones not counted, then what stands before its
column. -/
def offsetIn (lines : List DocumentLine) (p : Position) : Nat :=
  byteLength (linesText (lines.take p.line)) + byteOffset ((lines[p.line]?).getD default).contentOrEmpty p.character

/-- **The bytes that a patch replaces.** -/
def byteEdit (lines : List DocumentLine) (p : Patch) : ByteEdit :=
  ⟨offsetIn lines p.region.start, offsetIn lines p.region.stop, p.content⟩

/-- **A position within a line that has content.** -/
def HoldsIn (lines : List DocumentLine) (p : Position) : Prop :=
  ∃ c, (lines[p.line]?).bind (·.content) = some c ∧ p.character ≤ unitLength c

theorem holds_iff (d : Document) (p : Position) : d.holds p = true ↔ HoldsIn d.lines p := by
  unfold holds HoldsIn
  cases (d.lines[p.line]?).bind (·.content) with
  | none => simp
  | some c => simp

theorem linesText_append (a b : List DocumentLine) : linesText (a ++ b) = linesText a ++ linesText b :=
  List.flatMap_append

theorem linesText_cons (l : DocumentLine) (ls : List DocumentLine) : linesText (l :: ls) = l.text ++ linesText ls :=
  List.flatMap_cons

/-- **Where a held position stands**: its line among the others. -/
theorem HoldsIn.split {lines : List DocumentLine} {p : Position} (h : HoldsIn lines p) :
    ∃ pre l post c, lines = pre ++ l :: post ∧ pre.length = p.line ∧ l.content = some c ∧
      p.character ≤ unitLength c := by
  obtain ⟨c, hc, hle⟩ := h
  obtain ⟨l, hl, hlc⟩ := Option.bind_eq_some_iff.1 hc
  obtain ⟨hlt, hget⟩ := List.getElem?_eq_some_iff.1 hl
  refine ⟨lines.take p.line, l, lines.drop (p.line + 1), c, ?_, ?_, hlc, hle⟩
  · rw [← hget, ← List.drop_eq_getElem_cons hlt, List.take_append_drop]
  · rw [List.length_take]
    omega

/-- **Two held positions on different lines.** -/
theorem HoldsIn.split_two {lines : List DocumentLine} {p q : Position} (hp : HoldsIn lines p) (hq : HoldsIn lines q)
    (hlt : p.line < q.line) :
    ∃ pre l mid m post c e, lines = pre ++ l :: (mid ++ m :: post) ∧ pre.length = p.line ∧ l.content = some c ∧
      p.character ≤ unitLength c ∧ pre.length + 1 + mid.length = q.line ∧ m.content = some e ∧
      q.character ≤ unitLength e := by
  obtain ⟨pre, l, post, c, rfl, hpre, hc, hpc⟩ := hp.split
  have hpost : HoldsIn post ⟨q.line - (p.line + 1), q.character⟩ := by
    obtain ⟨e, he, hqe⟩ := hq
    refine ⟨e, ?_, hqe⟩
    rw [← he, List.getElem?_append_right (by omega), show q.line - pre.length = q.line - (p.line + 1) + 1 by omega,
      List.getElem?_cons_succ]
  obtain ⟨mid, m, post, e, rfl, hmid, he, hqe⟩ := hpost.split
  exact ⟨pre, l, mid, m, post, c, e, rfl, hpre, hc, hpc, by simp only at hmid; omega, he, hqe⟩

theorem holdsIn_of_split {pre post : List DocumentLine} {l : DocumentLine} {c : List Char} {p : Position}
    (hp : pre.length = p.line) (hc : l.content = some c) (hle : p.character ≤ unitLength c) :
    HoldsIn (pre ++ l :: post) p := by
  refine ⟨c, ?_, hle⟩
  rw [← hp, List.getElem?_append_right (Nat.le_refl _), Nat.sub_self]
  exact hc

theorem offsetIn_of_split {pre post : List DocumentLine} {l : DocumentLine} {c : List Char} {p : Position}
    (hp : pre.length = p.line) (hc : l.content = some c) :
    offsetIn (pre ++ l :: post) p = byteLength (linesText pre) + byteLength (takeUnits c p.character) := by
  unfold offsetIn
  rw [← hp, List.take_left, List.getElem?_append_right (Nat.le_refl _), Nat.sub_self, Text.byteOffset_eq]
  simp [DocumentLine.contentOrEmpty, hc]

theorem offsetIn_mono {lines : List DocumentLine} {p q : Position} (hp : HoldsIn lines p) (hq : HoldsIn lines q)
    (hpq : p.upTo q = true) : offsetIn lines p ≤ offsetIn lines q := by
  rcases (Position.upTo_iff p q).1 hpq with hlt | ⟨heq, hle⟩
  · obtain ⟨pre, l, mid, m, post, c, e, rfl, hpre, hc, -, hmid, he, -⟩ := hp.split_two hq hlt
    have hq' : offsetIn (pre ++ l :: (mid ++ m :: post)) q =
        byteLength (linesText (pre ++ l :: mid)) + byteLength (takeUnits e q.character) := by
      rw [show pre ++ l :: (mid ++ m :: post) = (pre ++ l :: mid) ++ m :: post by simp]
      exact offsetIn_of_split (by simp only [List.length_append, List.length_cons]; omega) he
    have hl : l.text = takeUnits c p.character ++ (dropUnits c p.character ++ l.ending.text) := by
      rw [← List.append_assoc, Text.takeUnits_append_dropUnits]
      simp [DocumentLine.text, hc]
    rw [offsetIn_of_split hpre hc, hq', linesText_append, linesText_cons, hl]
    simp only [Text.byteLength_append]
    omega
  · obtain ⟨pre, l, post, c, rfl, hpre, hc, -⟩ := hp.split
    obtain ⟨old, ho⟩ := Text.takeUnits_of_le c hle
    rw [offsetIn_of_split hpre hc, offsetIn_of_split (hpre.trans heq) hc, ho, Text.byteLength_append]
    omega

/-! ## What marks do not touch -/

theorem outline_text {a b : List DocumentLine} (h : outline a = outline b) : linesText a = linesText b := by
  have htext : ∀ ls : List DocumentLine, linesText ls =
      (outline ls).flatMap fun l => (l.1.map (· ++ l.2.text)).getD [] := by
    intro ls
    unfold linesText outline
    rw [List.flatMap_map]
    refine congrArg (fun f => List.flatMap f ls) (funext fun l => ?_)
    cases hc : l.content <;> simp [DocumentLine.text, hc]
  rw [htext, htext, h]

theorem outline_getElem? {a b : List DocumentLine} (h : outline a = outline b) (i : Nat) :
    (a[i]?).map (fun l => (l.content, l.ending)) = (b[i]?).map fun l => (l.content, l.ending) := by
  rw [← List.getElem?_map, ← List.getElem?_map]
  exact congrArg (·[i]?) h

theorem outline_content {a b : List DocumentLine} (h : outline a = outline b) (i : Nat) :
    (a[i]?).bind (·.content) = (b[i]?).bind (·.content) := by
  have := outline_getElem? h i
  cases ha : a[i]? <;> cases hb : b[i]? <;> simp_all

theorem outline_stopLine {a b : List DocumentLine} (h : outline a = outline b) (i : Nat) :
    ((a[i]?).getD default).content = ((b[i]?).getD default).content ∧
      ((a[i]?).getD default).ending = ((b[i]?).getD default).ending := by
  have := outline_getElem? h i
  cases ha : a[i]? <;> cases hb : b[i]? <;> simp_all

theorem HoldsIn.congr {a b : List DocumentLine} (h : outline a = outline b) {p : Position} (hp : HoldsIn a p) :
    HoldsIn b p := by
  unfold HoldsIn at hp ⊢
  rwa [← outline_content h]

/-- **What a patch makes of one line's content and ending**, given those of the line where it stops. -/
def spliceLine (p : Patch) (stop : Option (List Char) × Ending) (i : Nat) (l : Option (List Char) × Ending) :
    Option (List Char) × Ending :=
  let start := p.region.start
  if i = start.line then
    (some (takeUnits (l.1.getD []) start.character ++ p.content ++
        dropUnits (stop.1.getD []) p.region.stop.character),
      if start.line < p.region.stop.line then stop.2 else l.2)
  else if start.line < i && i < p.region.stop.line then (none, l.2)
  else if start.line < i && i = p.region.stop.line then (none, .nothing)
  else l

theorem outline_splice (lines : List DocumentLine) (p : Patch) :
    outline (splice lines p) = (outline lines).mapIdx
      (spliceLine p (((lines[p.region.stop.line]?).getD default).content,
        ((lines[p.region.stop.line]?).getD default).ending)) := by
  refine List.ext_getElem? fun i => ?_
  unfold outline splice
  simp only [List.getElem?_map, List.getElem?_mapIdx, Option.map_map]
  refine congrArg (fun f => Option.map f lines[i]?) (funext fun l => ?_)
  simp only [Function.comp_apply, spliceLine, DocumentLine.contentOrEmpty]
  split
  · rfl
  split
  · rfl
  split <;> rfl

theorem outline_splice_congr {a b : List DocumentLine} (h : outline a = outline b) (p : Patch) :
    outline (splice a p) = outline (splice b p) := by
  obtain ⟨h1, h2⟩ := outline_stopLine h p.region.stop.line
  rw [outline_splice, outline_splice, h, h1, h2]

theorem outline_shiftFrom (l : DocumentLine) (before after : List Mark) (lines columns : Int) :
    (l.shiftFrom before after lines columns).content = l.content ∧
      (l.shiftFrom before after lines columns).ending = l.ending := by
  cases after <;> exact ⟨rfl, rfl⟩

theorem outline_shiftWithin (lines : List DocumentLine) (p : Patch) (walk : MarkWalk) :
    outline (shiftWithin lines p walk).1 = outline lines := by
  unfold shiftWithin outline
  refine List.ext_getElem? fun i => ?_
  simp only [List.getElem?_map, List.getElem?_set]
  split
  · rename_i hi
    subst hi
    split
    · rename_i hlt
      rw [List.getElem?_eq_getElem hlt]
      simp [outline_shiftFrom]
    · rename_i hlt
      rw [List.getElem?_eq_none (by omega)]
  · rfl

theorem outline_shiftAcross (lines : List DocumentLine) (p : Patch) : outline (shiftAcross lines p) = outline lines := by
  refine List.ext_getElem? fun i => ?_
  unfold outline shiftAcross
  simp only [List.getElem?_map, List.getElem?_mapIdx, Option.map_map]
  refine congrArg (fun f => Option.map f lines[i]?) (funext fun l => ?_)
  simp only [Function.comp_apply]
  split
  · rfl
  split
  · rfl
  split
  · exact Prod.ext (outline_shiftFrom ..).1 (outline_shiftFrom ..).2
  · rfl

theorem outline_edit (mapped : Bool) (lines : List DocumentLine) (walk : MarkWalk) (p : Patch) :
    outline (edit mapped lines walk p).1 = outline (splice lines p) := by
  unfold edit
  split
  · rfl
  split
  · exact outline_shiftWithin ..
  · exact outline_shiftAcross ..

/-- **Marks and their walk change nothing about contents and endings.** -/
theorem outline_edits (mapped : Bool) : ∀ (ps : List Patch) (lines lines' : List DocumentLine) (walk : MarkWalk),
    outline lines = outline lines' → outline (edits mapped lines walk ps) = outline (ps.foldl splice lines')
  | [], _, _, _, h => h
  | p :: ps, lines, lines', walk, h => by
    unfold edits
    exact outline_edits mapped ps _ _ _ ((outline_edit mapped lines walk p).trans (outline_splice_congr h p))

/-! ## One patch -/

theorem mapIdx_eq_self {α : Type} {f : Nat → α → α} {xs : List α} (h : ∀ i x, i < xs.length → f i x = x) :
    xs.mapIdx f = xs := by
  refine List.ext_getElem? fun i => ?_
  rw [List.getElem?_mapIdx]
  cases hx : xs[i]? with
  | none => rfl
  | some x => rw [Option.map_some, h i x (List.getElem?_eq_some_iff.1 hx).1]

theorem mapIdx_at {α : Type} {f : Nat → α → α} {pre post : List α} (x : α)
    (hpre : ∀ i x, i < pre.length → f i x = x) (hpost : ∀ i x, pre.length < i → f i x = x) :
    (pre ++ x :: post).mapIdx f = pre ++ f pre.length x :: post := by
  rw [List.mapIdx_append, List.mapIdx_cons, mapIdx_eq_self hpre, Nat.zero_add, mapIdx_eq_self]
  intro i y _
  exact hpost _ y (by omega)

theorem mapIdx_between {α : Type} {f : Nat → α → α} {g : α → α} {pre mid post : List α} (x y : α)
    (hpre : ∀ i x, i < pre.length → f i x = x)
    (hmid : ∀ i x, pre.length < i → i < pre.length + 1 + mid.length → f i x = g x)
    (hpost : ∀ i x, pre.length + 1 + mid.length < i → f i x = x) :
    (pre ++ x :: (mid ++ y :: post)).mapIdx f =
      pre ++ f pre.length x :: (mid.map g ++ f (pre.length + 1 + mid.length) y :: post) := by
  have hlast : (y :: post).mapIdx (fun i => f (i + mid.length + 1 + pre.length)) =
      f (pre.length + 1 + mid.length) y :: post := by
    rw [List.mapIdx_cons, mapIdx_eq_self fun i z _ => hpost _ z (by omega)]
    congr 2
    omega
  have hmiddle : mid.mapIdx (fun i => f (i + 1 + pre.length)) = mid.map g := by
    refine List.ext_getElem? fun i => ?_
    rw [List.getElem?_mapIdx, List.getElem?_map]
    cases hz : mid[i]? with
    | none => rfl
    | some z =>
      have := (List.getElem?_eq_some_iff.1 hz).1
      rw [Option.map_some, Option.map_some, hmid _ z (by omega) (by omega)]
  rw [List.mapIdx_append, List.mapIdx_cons, List.mapIdx_append, mapIdx_eq_self hpre, Nat.zero_add, hmiddle, hlast]

theorem splice_within {pre post : List DocumentLine} {l : DocumentLine} {c : List Char} {p : Patch}
    (hpre : pre.length = p.region.start.line) (hstop : p.region.stop.line = p.region.start.line)
    (hc : l.content = some c) :
    splice (pre ++ l :: post) p = pre ++ { l with content := some (takeUnits c p.region.start.character ++ p.content ++
      dropUnits c p.region.stop.character) } :: post := by
  have hline : (pre ++ l :: post)[p.region.stop.line]? = some l := by
    rw [hstop, ← hpre, List.getElem?_append_right (Nat.le_refl _), Nat.sub_self]
    rfl
  unfold splice
  simp only [hline, Option.getD_some]
  rw [mapIdx_at]
  · simp [DocumentLine.contentOrEmpty, hc, hpre, hstop]
  · intro i x hi
    grind
  · intro i x hi
    grind

theorem splice_across {pre mid post : List DocumentLine} {l m : DocumentLine} {c e : List Char} {p : Patch}
    (hpre : pre.length = p.region.start.line) (hmid : pre.length + 1 + mid.length = p.region.stop.line)
    (hc : l.content = some c) (he : m.content = some e) :
    splice (pre ++ l :: (mid ++ m :: post)) p = pre ++
      { l with
        content := some (takeUnits c p.region.start.character ++ p.content ++ dropUnits e p.region.stop.character)
        ending := m.ending } ::
      (mid.map (fun x => { x with content := none }) ++ { m with content := none, ending := .nothing } :: post) := by
  have hline : (pre ++ l :: (mid ++ m :: post))[p.region.stop.line]? = some m := by
    rw [← hmid, show pre.length + 1 + mid.length = pre.length + (mid.length + 1) by omega,
      List.getElem?_append_right (by omega), Nat.add_sub_cancel_left, List.getElem?_cons_succ,
      List.getElem?_append_right (Nat.le_refl _), Nat.sub_self]
    rfl
  have hlt : p.region.start.line < p.region.stop.line := by omega
  unfold splice
  simp only [hline, Option.getD_some]
  rw [mapIdx_between (g := fun x => { x with content := none })]
  · rw [hmid, hpre, if_pos rfl, if_pos hlt, if_neg (by omega), if_neg (by simp), if_pos (by simpa using hlt)]
    simp [DocumentLine.contentOrEmpty, hc, he]
  · intro i x hi
    grind
  · intro i x hi hi'
    grind
  · intro i x hi
    grind

/-- **One patch replaces the bytes between its positions.** -/
theorem linesText_splice {lines : List DocumentLine} {p : Patch} (hstart : HoldsIn lines p.region.start)
    (hstop : HoldsIn lines p.region.stop) (hle : p.region.start.upTo p.region.stop = true) :
    ∃ front old back, linesText lines = front ++ old ++ back ∧
      byteLength front = (byteEdit lines p).lo ∧ (byteEdit lines p).lo + byteLength old = (byteEdit lines p).hi ∧
      linesText (splice lines p) = front ++ p.content ++ back := by
  simp only [byteEdit]
  rcases (Position.upTo_iff _ _).1 hle with hlt | ⟨heq, hchar⟩
  · obtain ⟨pre, l, mid, m, post, c, e, rfl, hpre, hc, -, hmid, he, -⟩ := hstart.split_two hstop hlt
    refine ⟨linesText pre ++ takeUnits c p.region.start.character,
      dropUnits c p.region.start.character ++ l.ending.text ++ linesText mid ++ takeUnits e p.region.stop.character,
      dropUnits e p.region.stop.character ++ m.ending.text ++ linesText post, ?_, ?_, ?_, ?_⟩
    · have hct := Text.takeUnits_append_dropUnits c p.region.start.character
      have het := Text.takeUnits_append_dropUnits e p.region.stop.character
      have hl : l.text = takeUnits c p.region.start.character ++ dropUnits c p.region.start.character ++
          l.ending.text := by simp [DocumentLine.text, hc, hct]
      have hm : m.text = takeUnits e p.region.stop.character ++ dropUnits e p.region.stop.character ++
          m.ending.text := by simp [DocumentLine.text, he, het]
      simp only [linesText_append, linesText_cons, hl, hm, List.append_assoc]
    · rw [offsetIn_of_split hpre hc, Text.byteLength_append]
    · rw [offsetIn_of_split hpre hc, show pre ++ l :: (mid ++ m :: post) = (pre ++ l :: mid) ++ m :: post by simp,
        offsetIn_of_split (by simp only [List.length_append, List.length_cons]; omega) he, linesText_append,
        linesText_cons]
      have hct := congrArg byteLength (Text.takeUnits_append_dropUnits c p.region.start.character)
      simp only [DocumentLine.text, hc, Text.byteLength_append] at hct ⊢
      omega
    · have hdead : linesText (mid.map fun x => { x with content := none }) = [] := by
        simp [linesText, DocumentLine.text]
      rw [splice_across hpre hmid hc he, linesText_append, linesText_cons, linesText_append, linesText_cons, hdead]
      simp [DocumentLine.text]
  · obtain ⟨pre, l, post, c, rfl, hpre, hc, -⟩ := hstart.split
    obtain ⟨old, ho⟩ := Text.takeUnits_of_le c hchar
    have hct := Text.takeUnits_append_dropUnits c p.region.stop.character
    refine ⟨linesText pre ++ takeUnits c p.region.start.character, old,
      dropUnits c p.region.stop.character ++ l.ending.text ++ linesText post, ?_, ?_, ?_, ?_⟩
    · have hl : l.text = takeUnits c p.region.start.character ++ old ++ dropUnits c p.region.stop.character ++
          l.ending.text := by rw [← ho, hct]; simp [DocumentLine.text, hc]
      simp only [linesText_append, linesText_cons, hl, List.append_assoc]
    · rw [offsetIn_of_split hpre hc, Text.byteLength_append]
    · rw [offsetIn_of_split hpre hc, offsetIn_of_split (hpre.trans heq) hc, ho, Text.byteLength_append]
      omega
    · rw [splice_within hpre heq.symm hc, linesText_append, linesText_cons]
      simp [DocumentLine.text]

/-- **Up to a patch's start nothing moves**: the lines before it stay, and so does the front of its own line. -/
theorem splice_front {lines : List DocumentLine} {p : Patch} (hstart : HoldsIn lines p.region.start)
    (hstop : HoldsIn lines p.region.stop) (hle : p.region.start.upTo p.region.stop = true) :
    ∃ pre l post c l' post' more, lines = pre ++ l :: post ∧ pre.length = p.region.start.line ∧ l.content = some c ∧
      p.region.start.character ≤ unitLength c ∧ splice lines p = pre ++ l' :: post' ∧
      l'.content = some (takeUnits c p.region.start.character ++ more) := by
  rcases (Position.upTo_iff _ _).1 hle with hlt | ⟨heq, -⟩
  · obtain ⟨pre, l, mid, m, post, c, e, rfl, hpre, hc, hchar, hmid, he, -⟩ := hstart.split_two hstop hlt
    refine ⟨pre, l, mid ++ m :: post, c, _, _, p.content ++ dropUnits e p.region.stop.character, rfl, hpre, hc, hchar,
      splice_across hpre hmid hc he, ?_⟩
    simp only [List.append_assoc]
  · obtain ⟨pre, l, post, c, rfl, hpre, hc, hchar⟩ := hstart.split
    refine ⟨pre, l, post, c, _, _, p.content ++ dropUnits c p.region.stop.character, rfl, hpre, hc, hchar,
      splice_within hpre heq.symm hc, ?_⟩
    simp only [List.append_assoc]

/-- **A position before a patch keeps its place.** -/
theorem splice_before {lines : List DocumentLine} {p : Patch} (hstart : HoldsIn lines p.region.start)
    (hstop : HoldsIn lines p.region.stop) (hle : p.region.start.upTo p.region.stop = true) {q : Position}
    (hq : HoldsIn lines q) (hlt : q.before p.region.start = true) :
    HoldsIn (splice lines p) q ∧ offsetIn (splice lines p) q = offsetIn lines q := by
  obtain ⟨pre, l, post, c, l', post', more, rfl, hpre, hc, hchar, hsplice, hl'⟩ := splice_front hstart hstop hle
  rw [hsplice]
  rcases (Position.before_iff _ _).1 hlt with hline | ⟨hline, hcol⟩
  · obtain ⟨front, k, mid, m, back, e, -, hsplit, hfront, he, hqe, hmid, -, -⟩ :=
      hq.split_two (holdsIn_of_split hpre hc hchar) hline
    -- the lines before the patch's own are the same in both
    have hpre' : pre = front ++ k :: mid := by
      have := congrArg (List.take pre.length) hsplit
      rw [List.take_left, show front ++ k :: (mid ++ m :: back) = (front ++ k :: mid) ++ m :: back by simp,
        show pre.length = (front ++ k :: mid).length by simp only [List.length_append, List.length_cons]; omega,
        List.take_left] at this
      exact this
    subst hpre'
    simp only [List.append_assoc, List.cons_append]
    exact ⟨holdsIn_of_split hfront he hqe, by rw [offsetIn_of_split hfront he, offsetIn_of_split hfront he]⟩
  · have hq' : pre.length = q.line := by omega
    refine ⟨holdsIn_of_split hq' hl' ?_, ?_⟩
    · rw [Text.unitLength_append]
      have := Text.unitLength_takeUnits_of_lt c hcol hchar
      omega
    · rw [offsetIn_of_split hq' hl', offsetIn_of_split hq' hc, Text.takeUnits_append_of_lt c more hcol hchar]

/-! ## All patches -/

/-- **Patches that can be applied together**: in order, apart from each other, and within lines that have content. -/
structure Applicable (lines : List DocumentLine) (sorted : List Patch) : Prop where
  ordered : ∀ p ∈ sorted, p.region.start.upTo p.region.stop = true
  apart : sorted.Pairwise fun p q => p.region.stop.before q.region.start = true
  held : ∀ p ∈ sorted, HoldsIn lines p.region.start ∧ HoldsIn lines p.region.stop

theorem Applicable.before_last {lines : List DocumentLine} {ps : List Patch} {p q : Patch}
    (ha : Applicable lines (ps ++ [p])) (hq : q ∈ ps) : q.region.stop.before p.region.start = true :=
  (List.pairwise_append.1 ha.apart).2.2 q hq p (List.mem_singleton_self p)

theorem Applicable.offset_le_last {lines : List DocumentLine} {ps : List Patch} {p q : Patch}
    (ha : Applicable lines (ps ++ [p])) (hq : q ∈ ps) : offsetIn lines q.region.stop ≤ offsetIn lines p.region.start :=
  offsetIn_mono (ha.held q (by simp [hq])).2 (ha.held p (by simp)).1 (Text.Position.before_upTo (ha.before_last hq))

theorem Applicable.offset_le {lines : List DocumentLine} {sorted : List Patch} {p : Patch} (ha : Applicable lines sorted)
    (hp : p ∈ sorted) : offsetIn lines p.region.start ≤ offsetIn lines p.region.stop :=
  offsetIn_mono (ha.held p hp).1 (ha.held p hp).2 (ha.ordered p hp)

/-- **The patches before the last one** can be applied once it is made, and they replace the same bytes. -/
theorem Applicable.splice {lines : List DocumentLine} {ps : List Patch} {p : Patch} (ha : Applicable lines (ps ++ [p])) :
    Applicable (splice lines p) ps ∧ ∀ q ∈ ps, byteEdit (Document.splice lines p) q = byteEdit lines q := by
  have hp := ha.held p (by simp)
  have hle := ha.ordered p (by simp)
  have hkeep : ∀ q ∈ ps, ∀ x, (x = q.region.start ∨ x = q.region.stop) →
      HoldsIn (Document.splice lines p) x ∧ offsetIn (Document.splice lines p) x = offsetIn lines x := by
    intro q hq x hx
    have hqh := ha.held q (by simp [hq])
    rcases hx with rfl | rfl
    · exact splice_before hp.1 hp.2 hle hqh.1
        (Text.Position.upTo_before (ha.ordered q (by simp [hq])) (ha.before_last hq))
    · exact splice_before hp.1 hp.2 hle hqh.2 (ha.before_last hq)
  refine ⟨⟨fun q hq => ha.ordered q (by simp [hq]), (List.pairwise_append.1 ha.apart).1,
    fun q hq => ⟨(hkeep q hq _ (.inl rfl)).1, (hkeep q hq _ (.inr rfl)).1⟩⟩, fun q hq => ?_⟩
  unfold byteEdit
  rw [(hkeep q hq _ (.inl rfl)).2, (hkeep q hq _ (.inr rfl)).2]

/-- **Splicing from the last patch to the first replaces all their bytes at once.** -/
theorem linesText_splices : ∀ (sorted : List Patch) {lines : List DocumentLine}, Applicable lines sorted →
    Replaced 0 (linesText lines) (sorted.map (byteEdit lines)) (linesText (sorted.reverse.foldl splice lines)) := by
  intro sorted
  -- the last patch is spliced first, so the induction takes patches off the end
  induction sorted using List.reverseRecOn with
  | nil => exact fun _ => .none 0 _
  | append_singleton ps p ih =>
    intro lines ha
    obtain ⟨happ, hsame⟩ := ha.splice
    have hrest := ih happ
    obtain ⟨front, old, back, htext, hfront, hold, hspliced⟩ :=
      linesText_splice (ha.held p (by simp)).1 (ha.held p (by simp)).2 (ha.ordered p (by simp))
    rw [List.map_congr_left hsame, hspliced, List.append_assoc] at hrest
    obtain ⟨front', hout, hfronts⟩ := hrest.behind rfl (by
      intro e he
      obtain ⟨q, hq, rfl⟩ := List.mem_map.1 he
      rw [Nat.zero_add, hfront]
      exact ha.offset_le_last hq)
    rw [List.map_append, List.reverse_append, List.reverse_singleton, List.singleton_append, List.foldl_cons, hout,
      htext, ← List.append_assoc]
    exact hfronts.append_edit (by rw [Nat.zero_add]; exact hfront) hold

/-- **Sorting keeps the patches.** -/
theorem mem_sortPatches (patches : List Patch) (p : Patch) : p ∈ sortPatches patches ↔ p ∈ patches :=
  List.mem_mergeSort

theorem overlap?_eq_none : ∀ {ps : List Patch},
    ps.Pairwise (fun p q => p.region.stop.before q.region.start = true) → overlap? ps = none
  | [], _ => rfl
  | [_], _ => rfl
  | p :: q :: ps, h => by
    have hpq := List.rel_of_pairwise_cons h (List.mem_cons_self (a := q))
    unfold overlap?
    rw [Text.Position.upTo, hpq, if_neg (by simp)]
    exact overlap?_eq_none h.of_cons

theorem refusal?_eq_none {d : Document} {sorted : List Patch} (h : Applicable d.lines sorted) :
    d.refusal? sorted = none := by
  have hfind : sorted.find? (fun p => p.region.stop.before p.region.start) = none := by
    refine List.find?_eq_none.2 fun p hp => ?_
    have := h.ordered p hp
    simpa [Text.Position.upTo] using this
  unfold refusal?
  rw [hfind, overlap?_eq_none h.apart]
  dsimp only
  cases hlast : sorted.getLast? with
  | none => rfl
  | some p =>
    dsimp only
    rw [if_pos ((holds_iff d _).2 (h.held p (List.mem_of_getLast? hlast)).2)]

/-- **Patches that can be applied together are.** -/
theorem apply_of_applicable {d : Document} {patches : List Patch} (h : Applicable d.lines (sortPatches patches)) :
    d.apply patches =
      .ok { d with lines := edits d.header.isSome d.lines ⟨none, 0⟩ (sortPatches patches).reverse } := by
  simp only [apply, refusal?_eq_none h]

/-- **The text after edits from the last patch to the first.** -/
theorem linesText_edits {lines : List DocumentLine} {sorted : List Patch} (h : Applicable lines sorted) (mapped : Bool)
    (walk : MarkWalk) :
    Replaced 0 (linesText lines) (sorted.map (byteEdit lines))
      (linesText (edits mapped lines walk sorted.reverse)) := by
  rw [outline_text (outline_edits mapped sorted.reverse lines lines walk rfl)]
  exact linesText_splices sorted h

theorem Applicable.congr {lines lines' : List DocumentLine} (h : outline lines = outline lines') {sorted : List Patch}
    (ha : Applicable lines sorted) : Applicable lines' sorted :=
  ⟨ha.ordered, ha.apart, fun p hp => ⟨(ha.held p hp).1.congr h, (ha.held p hp).2.congr h⟩⟩

/-- **Applying patches replaces their bytes at once.**  Whatever edits a document has been through, patches that end at
or after their starts, stand apart from each other and lie within lines that have content are accepted, in any order,
and the new text is the old one with the bytes between the patches' positions replaced.  Only contents and endings of
the lines matter: another document with the same lines, whatever its marks and its map, comes out with the same
lines. -/
theorem apply_replaces (d : Document) (patches : List Patch)
    (hordered : ∀ p ∈ patches, p.region.start.upTo p.region.stop = true)
    (hapart : (sortPatches patches).Pairwise fun p q => p.region.stop.before q.region.start = true)
    (hheld : ∀ p ∈ patches, d.holds p.region.start = true ∧ d.holds p.region.stop = true) :
    ∃ d', d.apply patches = .ok d' ∧
      Replaced 0 d.text ((sortPatches patches).map (byteEdit d.lines)) d'.text ∧
      ∀ e : Document, outline e.lines = outline d.lines →
        ∃ e', e.apply patches = .ok e' ∧ outline e'.lines = outline d'.lines ∧ e'.text = d'.text := by
  have happ : Applicable d.lines (sortPatches patches) := by
    refine ⟨fun p hp => hordered p ((mem_sortPatches _ p).1 hp), hapart, fun p hp => ?_⟩
    obtain ⟨h1, h2⟩ := hheld p ((mem_sortPatches _ p).1 hp)
    exact ⟨(holds_iff d _).1 h1, (holds_iff d _).1 h2⟩
  refine ⟨_, apply_of_applicable happ, linesText_edits happ _ _, fun e he => ?_⟩
  have hout : outline (edits e.header.isSome e.lines ⟨none, 0⟩ (sortPatches patches).reverse) =
      outline (edits d.header.isSome d.lines ⟨none, 0⟩ (sortPatches patches).reverse) := by
    rw [outline_edits _ _ e.lines d.lines _ he, outline_edits _ _ d.lines d.lines _ rfl]
  exact ⟨_, apply_of_applicable (happ.congr he.symm), hout, outline_text hout⟩

/-- Two patches, the later one first and over a line break, in a text with a character of two units. -/
theorem apply_replaces_joined :
    let d := ofText ['a', '😀', 'b', '\r', '\n', 'c', 'd'] none
    let patches : List Patch := [⟨⟨⟨0, 3⟩, ⟨1, 1⟩⟩, ['x']⟩, ⟨⟨⟨0, 0⟩, ⟨0, 1⟩⟩, ['y', 'y']⟩]
    (∀ p ∈ patches, p.region.start.upTo p.region.stop = true) ∧
      ((sortPatches patches).Pairwise fun p q => p.region.stop.before q.region.start = true) ∧
      (∀ p ∈ patches, d.holds p.region.start = true ∧ d.holds p.region.stop = true) ∧
      ∃ d', d.apply patches = .ok d' ∧
        Replaced 0 d.text [⟨0, 1, ['y', 'y']⟩, ⟨5, 9, ['x']⟩] d'.text := by
  intro d patches
  have hordered : ∀ p ∈ patches, p.region.start.upTo p.region.stop = true := by decide
  have hsort : sortPatches patches = [⟨⟨⟨0, 0⟩, ⟨0, 1⟩⟩, ['y', 'y']⟩, ⟨⟨⟨0, 3⟩, ⟨1, 1⟩⟩, ['x']⟩] := by cbv
  have hapart : (sortPatches patches).Pairwise fun p q => p.region.stop.before q.region.start = true := by
    rw [hsort]; decide
  have hheld : ∀ p ∈ patches, d.holds p.region.start = true ∧ d.holds p.region.stop = true := by decide
  obtain ⟨d', hd', hrep, -⟩ := apply_replaces d patches hordered hapart hheld
  have hedits : (sortPatches patches).map (byteEdit d.lines) = [⟨0, 1, ['y', 'y']⟩, ⟨5, 9, ['x']⟩] := by
    rw [hsort]; decide
  rw [hedits] at hrep
  exact ⟨hordered, hapart, hheld, d', hd', hrep⟩

end Document
end Localizer
