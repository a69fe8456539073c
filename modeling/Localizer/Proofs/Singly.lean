import Localizer.Proofs.Acceptance
/-!
# Singly — patches together and one at a time

Patches on one line share a walk over its marks: each goes on where the one behind it stopped.  The marks passed so far
all stand behind every patch that is still to come (`Document.Passed`), so a walk from the end of the line would go over
them without touching one, and comes to the same marks (`Document.shiftWithin_passed`).  Hence patches that are applied
together leave the document that they leave when each is applied alone, from the last to the first.
-/
namespace Localizer

open Text (Position unitLength takeUnits)

/-! ## A walk over marks that are passed already -/

theorem walkMarks_passed (start stop : Nat) (before : List Mark) : ∀ (late after : List Mark),
    (∀ m ∈ late, start < m.column ∧ stop ≤ m.column) →
    walkMarks start stop (late.reverse ++ before) after = walkMarks start stop before (late ++ after) := by
  intro late
  induction late using List.reverseRecOn with
  | nil => exact fun after _ => rfl
  | append_singleton late m ih =>
    intro after hlate
    have hm := hlate m (by simp)
    rw [List.reverse_append, List.reverse_singleton, List.singleton_append, List.cons_append, walkMarks,
      if_neg (by omega), if_neg (by omega), ih _ fun k hk => hlate k (List.mem_append_left _ hk)]
    simp

/-- A walk only passes marks behind the column it goes back to. -/
theorem walkMarks_behind (start stop : Nat) : ∀ (before after : List Mark), (∀ m ∈ after, start < m.column) →
    ∀ m ∈ (walkMarks start stop before after).2, start < m.column
  | [], _, h => h
  | k :: before, after, h => by
    unfold walkMarks
    split
    · exact h
    · rename_i hk
      refine walkMarks_behind start stop before _ fun m hm => ?_
      rcases List.mem_cons.1 hm with rfl | hm
      · split
        · exact Nat.lt_of_not_le hk
        · exact Nat.lt_of_not_le hk
      · exact h m hm

namespace Document

/-- **A walk that has passed nothing.** -/
def freshWalk : MarkWalk := ⟨none, 0⟩

/-- **The marks that a walk has passed stand behind a patch.** -/
def Passed (lines : List DocumentLine) (walk : MarkWalk) (p : Patch) : Prop :=
  ∀ l, walk.line = some p.region.start.line → lines[p.region.start.line]? = some l →
    ∀ m ∈ l.marks.drop walk.left, p.region.start.character < m.column ∧ p.region.stop.character ≤ m.column

theorem passed_freshWalk (lines : List DocumentLine) (p : Patch) : Passed lines freshWalk p := by
  intro l hline
  cases hline

theorem Passed.splice {lines : List DocumentLine} {walk : MarkWalk} {q : Patch} (h : Passed lines walk q) (p : Patch) :
    Passed (splice lines p) walk q := by
  intro l hline hl
  obtain ⟨l', hl', hmarks⟩ := InPlace.marks_splice hl
  rw [hmarks]
  exact h l' hline hl'

theorem shiftWithin_passed {lines : List DocumentLine} {walk : MarkWalk} {p : Patch} (h : Passed lines walk p) :
    shiftWithin lines p walk = shiftWithin lines p freshWalk := by
  unfold shiftWithin
  by_cases hline : walk.line = some p.region.start.line
  · let l := (lines[p.region.start.line]?).getD default
    have hlate : ∀ m ∈ l.marks.drop walk.left, p.region.start.character < m.column ∧ p.region.stop.character ≤ m.column := by
      cases hl : lines[p.region.start.line]? with
      | none => simp [l, hl, default, instInhabitedDocumentLine.default]
      | some l' => simpa [l, hl] using h l' hline hl
    have hwalk := walkMarks_passed p.region.start.character p.region.stop.character (l.marks.take walk.left).reverse
      (l.marks.drop walk.left) [] hlate
    rw [← List.reverse_append, List.take_append_drop, List.append_nil] at hwalk
    simp only [hline, beq_self_eq_true, if_true, freshWalk, show (none == some p.region.start.line) = false from rfl,
      Bool.false_eq_true, if_false, List.take_length, List.drop_length]
    rw [hwalk]
  · have hbeq : (walk.line == some p.region.start.line) = false := by simpa using hline
    simp only [hbeq, freshWalk, show (none == some p.region.start.line) = false from rfl, Bool.false_eq_true, if_false]

theorem column_of_mem_shiftFrom {l : DocumentLine} {before after : List Mark} {rows columns : Int} {m : Mark}
    (h : m ∈ (l.shiftFrom before after rows columns).marks.drop before.length) : ∃ k ∈ after, m.column = k.column := by
  cases after with
  | nil => simp [DocumentLine.shiftFrom, DocumentLine.shift] at h
  | cons k after =>
    simp only [DocumentLine.shiftFrom, List.drop_left, List.mem_cons] at h
    rcases h with rfl | h
    · exact ⟨k, by simp, rfl⟩
    · exact ⟨m, by simp [h], rfl⟩

/-- **What a walk has passed stands behind every patch before the one it was made for.** -/
theorem passed_shiftWithin {lines : List DocumentLine} {walk : MarkWalk} {p q : Patch} (h : Passed lines walk p)
    (hq : q.region.start.upTo q.region.stop = true) (hqp : q.region.stop.before p.region.start = true) :
    Passed (shiftWithin lines p walk).1 (shiftWithin lines p walk).2 q := by
  rw [shiftWithin_passed h]
  intro l hline hl m hm
  simp only [shiftWithin, freshWalk, Option.some.injEq] at hline hl hm
  rw [← hline, List.getElem?_set_self'] at hl
  obtain ⟨k, hk, hset⟩ := Option.map_eq_some_iff.1 hl
  rw [← hset, Function.const_apply, ← List.length_reverse] at hm
  obtain ⟨k, hk, hcolumn⟩ := column_of_mem_shiftFrom hm
  have hbehind := walkMarks_behind _ _ _ _ (by simp) k hk
  rw [Position.upTo_iff] at hq
  rw [Position.before_iff] at hqp
  omega

/-! ## Edits with a walk of their own -/

theorem edit_passed {mapped : Bool} {lines : List DocumentLine} {walk : MarkWalk} {p : Patch} (h : Passed lines walk p) :
    (edit mapped lines walk p).1 = (edit mapped lines freshWalk p).1 := by
  unfold edit
  split
  · rfl
  split
  · rw [shiftWithin_passed (h.splice p)]
  · rfl

theorem passed_edit {lines : List DocumentLine} {walk : MarkWalk} {p q : Patch} (h : Passed lines walk p)
    (hq : q.region.start.upTo q.region.stop = true) (hqp : q.region.stop.before p.region.start = true) :
    Passed (edit true lines walk p).1 (edit true lines walk p).2 q := by
  unfold edit
  rw [if_neg (by simp)]
  split
  · exact passed_shiftWithin (h.splice p) hq hqp
  · intro l hline
    cases hline

/-- **The shared walk makes no difference.** -/
theorem edits_passed (mapped : Bool) : ∀ (ps : List Patch) (lines : List DocumentLine) (walk : MarkWalk),
    (∀ p ∈ ps, p.region.start.upTo p.region.stop = true) →
    ps.Pairwise (fun p q => q.region.stop.before p.region.start = true) →
    (mapped = true → ∀ p ∈ ps, Passed lines walk p) →
    edits mapped lines walk ps = ps.foldl (fun lines p => (edit mapped lines freshWalk p).1) lines
  | [], _, _, _, _, _ => rfl
  | p :: ps, lines, walk, hordered, hbehind, hpassed => by
    obtain ⟨hp, hps⟩ := List.pairwise_cons.1 hbehind
    have hfirst : (edit mapped lines walk p).1 = (edit mapped lines freshWalk p).1 := by
      cases mapped with
      | false => rfl
      | true => exact edit_passed (hpassed rfl p (by simp))
    unfold edits
    rw [List.foldl_cons, ← hfirst]
    refine edits_passed mapped ps _ _ (fun q hq => hordered q (by simp [hq])) hps ?_
    rintro rfl q hq
    exact passed_edit (hpassed rfl p (by simp)) (hordered q (by simp [hq])) (hp q hq)

/-! ## Patches one at a time -/

theorem unitLength_takeUnits_of_le {cs : List Char} {k n : Nat} (hk : k < n) (hle : k ≤ unitLength cs) :
    k ≤ unitLength (takeUnits cs n) := by
  by_cases hn : n ≤ unitLength cs
  · exact Text.unitLength_takeUnits_of_lt cs hk hn
  · obtain ⟨old, hold⟩ := Text.takeUnits_of_le cs (show unitLength cs ≤ n by omega)
    have hall := Text.takeUnits_append_left cs []
    rw [List.append_nil] at hall
    rw [hold, hall, Text.unitLength_append]
    omega

/-- **A position in front of a patch stays within its line.** -/
theorem HoldsIn.splice {lines : List DocumentLine} {p : Patch} {pos : Position} (h : HoldsIn lines pos)
    (hpos : pos.before p.region.start = true) : HoldsIn (splice lines p) pos := by
  obtain ⟨c, hc, hle⟩ := h
  obtain ⟨l, hl, hlc⟩ := Option.bind_eq_some_iff.1 hc
  rw [Position.before_iff] at hpos
  unfold HoldsIn Document.splice
  simp only [List.getElem?_mapIdx, hl, Option.map_some, Option.bind_some]
  by_cases hline : pos.line = p.region.start.line
  · rw [if_pos hline]
    refine ⟨_, rfl, ?_⟩
    have hfront := unitLength_takeUnits_of_le (show pos.character < p.region.start.character by omega) hle
    simp only [DocumentLine.contentOrEmpty, hlc, Option.getD_some, Text.unitLength_append]
    omega
  · rw [if_neg hline, if_neg (by simp; omega), if_neg (by simp; omega)]
    exact ⟨c, hlc, hle⟩

theorem HoldsIn.edit {mapped : Bool} {lines : List DocumentLine} {walk : MarkWalk} {p : Patch} {pos : Position}
    (h : HoldsIn lines pos) (hpos : pos.before p.region.start = true) : HoldsIn (edit mapped lines walk p).1 pos :=
  (h.splice hpos).congr (outline_edit mapped lines walk p).symm

/-- **Apply patches one at a time**, in the order in which they are given. -/
def applyEach (d : Document) : List Patch → Except EditError Document
  | [] => .ok d
  | p :: ps => d.apply [p] >>= fun d' => applyEach d' ps

theorem apply_single {d : Document} {p : Patch} (hp : p.region.start.upTo p.region.stop = true)
    (h : HoldsIn d.lines p.region.stop) :
    d.apply [p] = .ok { d with lines := (edit d.header.isSome d.lines freshWalk p).1 } := by
  have hsorted : sortPatches [p] = [p] := List.mergeSort_singleton ..
  have href : d.refusal? [p] = none := by
    have hstop : p.region.stop.before p.region.start = false := by simpa [Position.upTo] using hp
    simp [refusal?, hstop, overlap?, (holds_iff d _).2 h]
  simp only [apply, hsorted, href]
  rfl

theorem applyEach_eq : ∀ (ps : List Patch) (d : Document), (∀ p ∈ ps, p.region.start.upTo p.region.stop = true) →
    ps.Pairwise (fun p q => q.region.stop.before p.region.start = true) → (∀ p ∈ ps, HoldsIn d.lines p.region.stop) →
    d.applyEach ps =
      .ok { d with lines := ps.foldl (fun lines p => (edit d.header.isSome lines freshWalk p).1) d.lines }
  | [], _, _, _, _ => rfl
  | p :: ps, d, hordered, hbehind, hholds => by
    obtain ⟨hp, hps⟩ := List.pairwise_cons.1 hbehind
    unfold applyEach
    rw [apply_single (hordered p (by simp)) (hholds p (by simp))]
    refine applyEach_eq ps _ (fun q hq => hordered q (by simp [hq])) hps fun q hq => ?_
    exact (hholds q (by simp [hq])).edit (hp q hq)

open Classical in
theorem accepted_of_apply {d d' : Document} {patches : List Patch} (h : d.apply patches = .ok d') :
    ¬ Reversed patches ∧ ¬ Colliding patches ∧
      d' = { d with lines := edits d.header.isSome d.lines freshWalk (sortPatches patches).reverse } := by
  have hkind := kind_apply d patches
  rw [h] at hkind
  by_cases hrev : Reversed patches
  · rw [if_pos hrev] at hkind
    cases hkind
  by_cases hcol : Colliding patches
  · rw [if_neg hrev, if_pos hcol] at hkind
    cases hkind
  by_cases hout : EndsOutside d.lines patches
  · rw [if_neg hrev, if_neg hcol, if_pos hout] at hkind
    cases hkind
  rw [if_neg hrev, if_neg hcol, if_neg hout] at hkind
  exact ⟨hrev, hcol, Except.ok.inj hkind⟩

/-- From the last to the first, patches that do not collide have one order. -/
theorem eq_reverse_sortPatches {patches order : List Patch} (hrev : ¬ Reversed patches) (hno : ¬ Colliding patches)
    (hperm : order.Perm patches)
    (horder : order.Pairwise fun p q => q.region.start.before p.region.start = true) :
    order = (sortPatches patches).reverse := by
  have hsorted : (sortPatches patches).reverse.Pairwise fun p q => q.region.start.before p.region.start = true := by
    rw [List.pairwise_reverse]
    refine (pairwise_behind hrev hno).imp_of_mem fun {p q} hp _ hpq => ?_
    exact Position.upTo_before (not_reversed_iff.1 hrev p ((mem_sortPatches _ p).1 hp)) hpq
  have hsame : order.Perm (sortPatches patches).reverse :=
    hperm.trans ((perm_sortPatches patches).symm.trans (List.reverse_perm _).symm)
  refine hsame.eq_of_pairwise (fun p q _ _ hpq hqp => ?_) horder hsorted
  rw [Position.before_iff] at hpq hqp
  omega

/-- **Patches applied together are patches applied one at a time.**  If a document accepts patches and each of them ends
within a line that has content, then it also accepts each one alone, from the last to the first, and these single calls
leave the same document: the same contents and endings, marks with the same deletions and shifts, and the same shifts
behind them. -/
theorem apply_eq_applyEach (d d' : Document) (patches order : List Patch) (h : d.apply patches = .ok d')
    (hends : ∀ p ∈ patches, d.holds p.region.stop = true) (hperm : order.Perm patches)
    (horder : order.Pairwise fun p q => q.region.start.before p.region.start = true) : d.applyEach order = .ok d' := by
  obtain ⟨hrev, hno, rfl⟩ := accepted_of_apply h
  rw [eq_reverse_sortPatches hrev hno hperm horder]
  have hmem : ∀ p ∈ (sortPatches patches).reverse, p ∈ patches := fun p hp =>
    (mem_sortPatches _ p).1 (List.mem_reverse.1 hp)
  have hordered : ∀ p ∈ (sortPatches patches).reverse, p.region.start.upTo p.region.stop = true :=
    fun p hp => not_reversed_iff.1 hrev p (hmem p hp)
  have hbehind : (sortPatches patches).reverse.Pairwise fun p q => q.region.stop.before p.region.start = true :=
    List.pairwise_reverse.2 (pairwise_behind hrev hno)
  rw [applyEach_eq _ d hordered hbehind fun p hp => (holds_iff d _).1 (hends p (hmem p hp)),
    edits_passed _ _ _ _ hordered hbehind fun _ p _ => passed_freshWalk d.lines p]

/-- Two patches on one line and one over a line break, in a text with two marks at one column. -/
theorem apply_eq_applyEach_shared :
    let mark (line column : Nat) : Mapping := ⟨line, column, none⟩
    let d := ofText ['a', '😀', 'b', 'c', '\n', 'd', 'e'] (some ⟨default, [mark 0 1, mark 0 3, mark 0 3, mark 0 4, mark 1 1]⟩)
    let early : Patch := ⟨⟨⟨0, 0⟩, ⟨0, 1⟩⟩, ['x', 'y']⟩
    let middle : Patch := ⟨⟨⟨0, 2⟩, ⟨0, 3⟩⟩, []⟩
    let late : Patch := ⟨⟨⟨0, 4⟩, ⟨1, 1⟩⟩, ['z']⟩
    ∃ d', d.apply [middle, late, early] = .ok d' ∧ d'.text = ['x', 'y', 'b', 'z', 'e'] ∧
      d.applyEach [late, middle, early] = .ok d' := by
  intro mark d early middle late
  have hends : ∀ p ∈ [middle, late, early], d.holds p.region.stop = true := by decide +kernel
  have hperm : [late, middle, early].Perm [middle, late, early] := .swap ..
  have horder : [late, middle, early].Pairwise fun p q => q.region.start.before p.region.start = true := by decide
  have htext : ((d.apply [middle, late, early]).toOption.map text) = some ['x', 'y', 'b', 'z', 'e'] := by cbv
  cases happly : d.apply [middle, late, early] with
  | error e =>
    rw [happly] at htext
    cases htext
  | ok d' =>
    rw [happly] at htext
    exact ⟨d', rfl, Option.some.inj htext, apply_eq_applyEach d d' _ _ happly hends hperm horder⟩

end Document
end Localizer
