import Localizer.Proofs.InPlace
import Localizer.Proofs.Stretches
/-!
# Acceptance — which patches are applied, and why others are refused

Patches are sorted, then only neighbours are compared and only the last one is looked up in the document.
`Document.apply_outcome` says what this finds out about all patches: any that ends before it starts, any two that overlap
or touch, and whether the one that starts last ends within a line.  What is found does not depend on the order in which
the patches are given, and accepted patches are made without a bad access.
-/
namespace Localizer

open Text (Position Region)

/-- **The kinds of refusal.** -/
inductive Refusal where
  | reversed
  | overlapping
  | outside
  deriving DecidableEq, Repr, Inhabited

def EditError.kind : EditError → Refusal
  | .reversed _ => .reversed
  | .overlapping _ _ => .overlapping
  | .outside _ _ => .outside

namespace Document

/-! ## What can be wrong with patches -/

/-- **Some patch ends before it starts.** -/
def Reversed (patches : List Patch) : Prop := ∃ p ∈ patches, p.region.stop.before p.region.start = true

/-- **Two of the patches overlap or touch**: one starts at or after the other's start, but not after its end. -/
def Colliding (patches : List Patch) : Prop :=
  ∃ (i j : Nat) (p q : Patch), i ≠ j ∧ patches[i]? = some p ∧ patches[j]? = some q ∧
    p.region.start.upTo q.region.start = true ∧ q.region.start.upTo p.region.stop = true

/-- **The patch that starts last ends outside the lines that have content.** -/
def EndsOutside (lines : List DocumentLine) (patches : List Patch) : Prop :=
  ∃ p ∈ patches, (∀ q ∈ patches, q.region.start.upTo p.region.start = true) ∧ ¬ HoldsIn lines p.region.stop

theorem not_reversed_iff {patches : List Patch} :
    ¬ Reversed patches ↔ ∀ p ∈ patches, p.region.start.upTo p.region.stop = true := by
  simp [Reversed, Position.upTo]

theorem apart_iff {p q : Patch} (hp : p.region.start.upTo p.region.stop = true)
    (hq : q.region.start.upTo q.region.stop = true) :
    p.Apart q ↔ ¬ (p.region.start.upTo q.region.start = true ∧ q.region.start.upTo p.region.stop = true) ∧
      ¬ (q.region.start.upTo p.region.start = true ∧ p.region.start.upTo q.region.stop = true) := by
  simp only [Patch.Apart, Position.upTo_iff, Position.before_iff] at hp hq ⊢
  omega

theorem not_colliding_iff {patches : List Patch} (h : ¬ Reversed patches) :
    ¬ Colliding patches ↔ patches.Pairwise Patch.Apart := by
  rw [not_reversed_iff] at h
  constructor
  · intro hno
    rw [List.pairwise_iff_getElem]
    intro i j hi hj hij
    have hpi := List.getElem?_eq_getElem hi
    have hpj := List.getElem?_eq_getElem hj
    refine (apart_iff (h _ (List.getElem_mem hi)) (h _ (List.getElem_mem hj))).2 ⟨fun hc => hno ?_, fun hc => hno ?_⟩
    · exact ⟨i, j, _, _, Nat.ne_of_lt hij, hpi, hpj, hc⟩
    · exact ⟨j, i, _, _, (Nat.ne_of_lt hij).symm, hpj, hpi, hc⟩
  · rintro hapart ⟨i, j, p, q, hij, hp, hq, hcollide⟩
    have hpq : p.Apart q := by
      obtain ⟨hi, rfl⟩ := List.getElem?_eq_some_iff.1 hp
      obtain ⟨hj, rfl⟩ := List.getElem?_eq_some_iff.1 hq
      rcases Nat.lt_or_gt_of_ne hij with hlt | hgt
      · exact List.pairwise_iff_getElem.1 hapart i j hi hj hlt
      · exact (List.pairwise_iff_getElem.1 hapart j i hj hi hgt).symm
    have hp := h p (List.mem_of_getElem? hp)
    have hq := h q (List.mem_of_getElem? hq)
    exact ((apart_iff hp hq).1 hpq).1 hcollide

/-! ## What is found out about them -/

theorem perm_sortPatches (patches : List Patch) : (sortPatches patches).Perm patches := List.mergeSort_perm ..

/-- **Sorted patches stand one behind the other** if none collide. -/
theorem pairwise_behind {patches : List Patch} (h : ¬ Reversed patches) (hno : ¬ Colliding patches) :
    (sortPatches patches).Pairwise fun p q => p.region.stop.before q.region.start = true := by
  have hapart := ((perm_sortPatches patches).pairwise_iff Patch.Apart.symm).2 ((not_colliding_iff h).1 hno)
  refine ((pairwise_sortPatches patches).and hapart).imp_of_mem fun {p q} hp hq ⟨hle, hpq⟩ => ?_
  have hq := not_reversed_iff.1 h q ((mem_sortPatches _ q).1 hq)
  simp only [Patch.Apart, Position.upTo_iff, Position.before_iff] at hle hpq hq ⊢
  omega

theorem overlap?_eq_none_iff {patches : List Patch} (h : ¬ Reversed patches) :
    overlap? (sortPatches patches) = none ↔ ¬ Colliding patches := by
  constructor
  · intro hnone
    have hbehind := pairwise_of_overlap? (fun p hp => not_reversed_iff.1 h p ((mem_sortPatches _ p).1 hp)) hnone
    refine (not_colliding_iff h).2 (((perm_sortPatches patches).pairwise_iff Patch.Apart.symm).1 ?_)
    exact hbehind.imp .inl
  · exact fun hno => overlap?_eq_none (pairwise_behind h hno)

theorem find?_reversed_iff {patches : List Patch} :
    (sortPatches patches).find? (fun p => p.region.stop.before p.region.start) = none ↔ ¬ Reversed patches := by
  rw [List.find?_eq_none]
  simp [Reversed, mem_sortPatches]

theorem behind_last {sorted : List Patch} {last : Patch}
    (h : sorted.Pairwise fun p q => p.region.stop.before q.region.start = true) (hlast : sorted.getLast? = some last) :
    ∀ p ∈ sorted, p = last ∨ p.region.stop.before last.region.start = true := by
  intro p hp
  obtain ⟨front, rfl⟩ := List.getLast?_eq_some_iff.1 hlast
  rcases List.mem_append.1 hp with hp | hp
  · exact .inr ((List.pairwise_append.1 h).2.2 p hp last (by simp))
  · exact .inl (List.mem_singleton.1 hp)

/-- **The last of the sorted patches is the one that starts last.** -/
theorem getLast?_sortPatches {patches : List Patch} (h : ¬ Reversed patches) (hno : ¬ Colliding patches) (p : Patch) :
    (sortPatches patches).getLast? = some p ↔
      p ∈ patches ∧ ∀ q ∈ patches, q.region.start.upTo p.region.start = true := by
  have hbehind := pairwise_behind h hno
  have hordered := not_reversed_iff.1 h
  constructor
  · intro hlast
    refine ⟨(mem_sortPatches _ p).1 (List.mem_of_getLast? hlast), fun q hq => ?_⟩
    rcases behind_last hbehind hlast q ((mem_sortPatches _ q).2 hq) with rfl | hstop
    · simp [Position.upTo_iff]
    · have hstart := hordered q hq
      simp only [Position.upTo_iff, Position.before_iff] at hstop hstart ⊢
      omega
  · rintro ⟨hp, hmax⟩
    have hp' := (mem_sortPatches patches p).2 hp
    cases hlast : (sortPatches patches).getLast? with
    | none => simp [List.getLast?_eq_none_iff.1 hlast] at hp'
    | some last =>
      rcases behind_last hbehind hlast p hp' with rfl | hstop
      · rfl
      · -- it would start before the last one
        have hstart := hordered p hp
        have hle := hmax last ((mem_sortPatches _ last).1 (List.mem_of_getLast? hlast))
        simp only [Position.upTo_iff, Position.before_iff] at hstop hstart hle
        omega

/-- **Why patches are refused, and when.** -/
theorem refusal?_cases (d : Document) (patches : List Patch) :
    (Reversed patches ∧ ∃ r, d.refusal? (sortPatches patches) = some (.reversed r)) ∨
    (¬ Reversed patches ∧ Colliding patches ∧ ∃ a b, d.refusal? (sortPatches patches) = some (.overlapping a b)) ∨
    (¬ Reversed patches ∧ ¬ Colliding patches ∧ EndsOutside d.lines patches ∧
      ∃ stop n, d.refusal? (sortPatches patches) = some (.outside stop n)) ∨
    (¬ Reversed patches ∧ ¬ Colliding patches ∧ ¬ EndsOutside d.lines patches ∧
      d.refusal? (sortPatches patches) = none) := by
  unfold refusal?
  cases hfind : (sortPatches patches).find? fun p => p.region.stop.before p.region.start with
  | some p =>
    refine .inl ⟨?_, p.region, rfl⟩
    by_contra hno
    rw [find?_reversed_iff.2 hno] at hfind
    cases hfind
  | none =>
    have hordered := find?_reversed_iff.1 hfind
    refine .inr ?_
    cases hover : overlap? (sortPatches patches) with
    | some regions =>
      refine .inl ⟨hordered, ?_, regions.1, regions.2, rfl⟩
      by_contra hno
      rw [(overlap?_eq_none_iff hordered).2 hno] at hover
      cases hover
    | none =>
      have hno := (overlap?_eq_none_iff hordered).1 hover
      have hlast := getLast?_sortPatches hordered hno
      refine .inr ?_
      cases hp : (sortPatches patches).getLast? with
      | none =>
        refine .inr ⟨hordered, hno, ?_, rfl⟩
        rintro ⟨p, hp', hmax, -⟩
        rw [(hlast p).2 ⟨hp', hmax⟩] at hp
        cases hp
      | some p =>
        obtain ⟨hmem, hmax⟩ := (hlast p).1 hp
        dsimp only
        split
        · rename_i hholds
          refine .inr ⟨hordered, hno, ?_, rfl⟩
          rintro ⟨q, hq, hqmax, hout⟩
          obtain rfl : p = q := Option.some.inj (hp.symm.trans ((hlast q).2 ⟨hq, hqmax⟩))
          exact hout ((holds_iff d _).1 hholds)
        · rename_i hholds
          exact .inl ⟨hordered, hno, ⟨p, hmem, hmax, fun hin => hholds ((holds_iff d _).2 hin)⟩, _, _, rfl⟩

open Classical in
/-- **The outcome of patches**, up to what a refusal tells about them. -/
theorem kind_apply (d : Document) (patches : List Patch) :
    (d.apply patches).mapError EditError.kind =
      if Reversed patches then .error .reversed
      else if Colliding patches then .error .overlapping
      else if EndsOutside d.lines patches then .error .outside
      else .ok { d with lines := edits d.header.isSome d.lines ⟨none, 0⟩ (sortPatches patches).reverse } := by
  rcases refusal?_cases d patches with ⟨hrev, r, h⟩ | ⟨hrev, hcol, a, b, h⟩ | ⟨hrev, hno, hout, stop, n, h⟩ |
    ⟨hrev, hno, hin, h⟩
  · rw [if_pos hrev]
    simp only [apply, h]
    rfl
  · rw [if_neg hrev, if_pos hcol]
    simp only [apply, h]
    rfl
  · rw [if_neg hrev, if_neg hno, if_pos hout]
    simp only [apply, h]
    rfl
  · rw [if_neg hrev, if_neg hno, if_neg hin]
    simp only [apply, h]
    rfl

/-- **Accepted patches end on lines that are there.** -/
theorem fits_of_accepted {d : Document} {patches : List Patch} (h : d.refusal? (sortPatches patches) = none) :
    ∀ p ∈ sortPatches patches, InPlace.Fits d.lines p := by
  obtain ⟨hrev, hno, hin⟩ : ¬ Reversed patches ∧ ¬ Colliding patches ∧ ¬ EndsOutside d.lines patches := by
    rcases refusal?_cases d patches with ⟨-, r, he⟩ | ⟨-, -, a, b, he⟩ | ⟨-, -, -, stop, n, he⟩ | ⟨hrev, hno, hin, -⟩
    · cases h.symm.trans he
    · cases h.symm.trans he
    · cases h.symm.trans he
    · exact ⟨hrev, hno, hin⟩
  intro p hp
  have hordered : ∀ q ∈ sortPatches patches, q.region.start.upTo q.region.stop = true :=
    fun q hq => not_reversed_iff.1 hrev q ((mem_sortPatches _ q).1 hq)
  refine ⟨hordered p hp, ?_⟩
  cases hlast : (sortPatches patches).getLast? with
  | none => simp [List.getLast?_eq_none_iff.1 hlast] at hp
  | some last =>
    obtain ⟨hmem, hmax⟩ := (getLast?_sortPatches hrev hno last).1 hlast
    have hheld : HoldsIn d.lines last.region.stop := by
      by_contra hout
      exact hin ⟨last, hmem, hmax, hout⟩
    obtain ⟨pre, l, post, c, hlines, hpre, -, -⟩ := hheld.split
    have hline : last.region.stop.line < d.lines.length := by
      rw [hlines, List.length_append, List.length_cons]
      omega
    rcases behind_last (pairwise_behind hrev hno) hlast p hp with rfl | hstop
    · exact hline
    · have hle := hordered last (List.mem_of_getLast? hlast)
      simp only [Position.upTo_iff, Position.before_iff] at hstop hle
      omega

/-! ## The order of the patches -/

theorem reversed_perm {a b : List Patch} (h : a.Perm b) : Reversed a ↔ Reversed b := by
  simp only [Reversed, h.mem_iff]

theorem endsOutside_perm {a b : List Patch} (h : a.Perm b) (lines : List DocumentLine) :
    EndsOutside lines a ↔ EndsOutside lines b := by
  simp only [EndsOutside, h.mem_iff]

theorem colliding_perm {a b : List Patch} (h : a.Perm b) (hrev : ¬ Reversed a) : Colliding a ↔ Colliding b := by
  have hrev' : ¬ Reversed b := fun hb => hrev ((reversed_perm h).2 hb)
  rw [← not_iff_not, not_colliding_iff hrev, not_colliding_iff hrev']
  exact h.pairwise_iff Patch.Apart.symm

/-- **Patches that do not collide have one order.** -/
theorem sortPatches_perm {a b : List Patch} (h : a.Perm b) (hrev : ¬ Reversed a) (hno : ¬ Colliding a) :
    sortPatches a = sortPatches b := by
  have hrev' : ¬ Reversed b := fun hb => hrev ((reversed_perm h).2 hb)
  have hno' : ¬ Colliding b := fun hb => hno ((colliding_perm h hrev).2 hb)
  have hperm : (sortPatches a).Perm (sortPatches b) :=
    (perm_sortPatches a).trans (h.trans (perm_sortPatches b).symm)
  refine hperm.eq_of_pairwise (fun p q hp hq hpq hqp => ?_) (pairwise_behind hrev hno) (pairwise_behind hrev' hno')
  -- two patches cannot each stand behind the other
  have hp' := not_reversed_iff.1 hrev p ((mem_sortPatches _ p).1 hp)
  have hq' := not_reversed_iff.1 hrev' q ((mem_sortPatches _ q).1 hq)
  simp only [Position.upTo_iff, Position.before_iff] at hpq hqp hp' hq'
  omega

theorem kind_apply_perm {a b : List Patch} (h : a.Perm b) (d : Document) :
    (d.apply a).mapError EditError.kind = (d.apply b).mapError EditError.kind := by
  rw [kind_apply, kind_apply]
  by_cases hrev : Reversed a
  · rw [if_pos hrev, if_pos ((reversed_perm h).1 hrev)]
  rw [if_neg hrev, if_neg (mt (reversed_perm h).2 hrev)]
  by_cases hcol : Colliding a
  · rw [if_pos hcol, if_pos ((colliding_perm h hrev).1 hcol)]
  rw [if_neg hcol, if_neg (mt (colliding_perm h hrev).2 hcol), sortPatches_perm h hrev hcol]
  by_cases hout : EndsOutside d.lines a
  · rw [if_pos hout, if_pos ((endsOutside_perm h d.lines).1 hout)]
  · rw [if_neg hout, if_neg (mt (endsOutside_perm h d.lines).2 hout)]

/-! ## The outcome -/

/-- **The outcome of applying patches**, to whatever document and whatever patches they are.  Made in place with every
access checked, it never comes to a line that is not there, a cut inside a character or a difference below zero, and a
refusal leaves the document as it was.  Patches are refused as reversed exactly if one of them ends before it starts,
else as overlapping exactly if two of them overlap or touch, else as outside exactly if the one that starts last does not
end within a line that has content; all others are accepted.  In another order they have the same outcome. -/
theorem apply_outcome (d : Document) (patches : List Patch) :
    InPlace.apply d patches = some (match d.apply patches with
      | .ok d' => (.ok (), d')
      | .error e => (.error e, d)) ∧
    ((d.apply patches).mapError EditError.kind = .error .reversed ↔ Reversed patches) ∧
    ((d.apply patches).mapError EditError.kind = .error .overlapping ↔ ¬ Reversed patches ∧ Colliding patches) ∧
    ((d.apply patches).mapError EditError.kind = .error .outside ↔
      ¬ Reversed patches ∧ ¬ Colliding patches ∧ EndsOutside d.lines patches) ∧
    ((∃ d', d.apply patches = .ok d') ↔
      ¬ Reversed patches ∧ ¬ Colliding patches ∧ ¬ EndsOutside d.lines patches) ∧
    ∀ others, others.Perm patches →
      (d.apply others).mapError EditError.kind = (d.apply patches).mapError EditError.kind := by
  have hok : (∃ d', d.apply patches = .ok d') ↔ ∃ d', (d.apply patches).mapError EditError.kind = .ok d' := by
    cases d.apply patches <;> simp [Except.mapError]
  refine ⟨InPlace.apply_eq fits_of_accepted, ?_, ?_, ?_, ?_, fun others h => kind_apply_perm h d⟩
  · rw [kind_apply]
    split_ifs <;> simp_all
  · rw [kind_apply]
    split_ifs <;> simp_all
  · rw [kind_apply]
    split_ifs <;> simp_all
  · rw [hok, kind_apply]
    split_ifs <;> simp_all

/-- Two patches that touch are refused in both orders; a third one past the end of the text is not looked up. -/
theorem apply_outcome_touching :
    let d := ofText ['a', '😀', '\n', 'c', 'd'] none
    let patches : List Patch := [⟨⟨⟨0, 1⟩, ⟨1, 1⟩⟩, ['x']⟩, ⟨⟨⟨0, 0⟩, ⟨0, 1⟩⟩, []⟩, ⟨⟨⟨7, 0⟩, ⟨7, 0⟩⟩, ['y']⟩]
    Colliding patches ∧ (d.apply patches).mapError EditError.kind = .error .overlapping ∧
      InPlace.apply d patches = some (.error (.overlapping ⟨⟨0, 0⟩, ⟨0, 1⟩⟩ ⟨⟨0, 1⟩, ⟨1, 1⟩⟩), d) ∧
      patches.reverse.Perm patches ∧
      (d.apply patches.reverse).mapError EditError.kind = (d.apply patches).mapError EditError.kind := by
  intro d patches
  have hcol : Colliding patches := ⟨1, 0, _, _, by decide, rfl, rfl, by decide, by decide⟩
  have hrev : ¬ Reversed patches := by simp [Reversed, patches, Position.before]
  obtain ⟨hplace, -, hover, -, -, hperm⟩ := apply_outcome d patches
  have happly : d.apply patches = .error (.overlapping ⟨⟨0, 0⟩, ⟨0, 1⟩⟩ ⟨⟨0, 1⟩, ⟨1, 1⟩⟩) := by cbv
  rw [happly] at hplace
  exact ⟨hcol, hover.2 ⟨hrev, hcol⟩, hplace, List.reverse_perm _, hperm _ (List.reverse_perm _)⟩

end Document
end Localizer
