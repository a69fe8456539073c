import Localizer.Source.Script
import Localizer.Proofs.Positions
/-!
# Stretches — spans of a script that are replaced

A span of a script's tree can be cut out of the file if no character and no line ending is torn apart.  Patches for such
spans replace exactly their bytes, and all of them are accepted if there is text between any two spans; otherwise they
are refused, and as overlapping ones (`Script.apply_stretches`).
-/
namespace Localizer

open Source
open Text (Position Region Cut ByteEdit Replaced positionOf byteLength)

/-! ## Patches in any order -/

/-- **Two patches with text between them.** -/
def Patch.Apart (p q : Patch) : Prop :=
  p.region.stop.before q.region.start = true ∨ q.region.stop.before p.region.start = true

theorem Patch.Apart.symm {p q : Patch} (h : p.Apart q) : q.Apart p := Or.symm h

namespace Document

theorem pairwise_sortPatches (patches : List Patch) :
    (sortPatches patches).Pairwise fun p q => p.region.start.upTo q.region.start = true := by
  refine List.pairwise_mergeSort (fun a b c hab hbc => ?_) (fun a b => ?_) patches
  · simp only [Position.upTo_iff] at hab hbc ⊢
    omega
  · simp only [Bool.or_eq_true, Position.upTo_iff]
    omega

/-- **Patches within the lines can be applied together if they are apart**, in whatever order they come. -/
theorem applicable_iff_apart {lines : List DocumentLine} {patches : List Patch}
    (hordered : ∀ p ∈ patches, p.region.start.upTo p.region.stop = true)
    (hheld : ∀ p ∈ patches, HoldsIn lines p.region.start ∧ HoldsIn lines p.region.stop) :
    Applicable lines (sortPatches patches) ↔ patches.Pairwise Patch.Apart := by
  have hperm : (sortPatches patches).Perm patches := List.mergeSort_perm ..
  rw [← hperm.pairwise_iff Patch.Apart.symm]
  refine ⟨fun h => h.apart.imp .inl, fun h => ⟨fun p hp => hordered p (hperm.subset hp), ?_, fun p hp =>
    hheld p (hperm.subset hp)⟩⟩
  refine ((pairwise_sortPatches patches).and h).imp_of_mem fun {p q} _ hq ⟨hle, hapart⟩ => ?_
  rcases hapart with hpq | hqp
  · exact hpq
  · -- a patch that ends before another one starts cannot start behind it
    have := hordered q (hperm.subset hq)
    simp only [Position.upTo_iff, Position.before_iff] at this hle hqp
    omega

theorem pairwise_of_overlap? : ∀ {ps : List Patch}, (∀ p ∈ ps, p.region.start.upTo p.region.stop = true) →
    overlap? ps = none → ps.Pairwise fun p q => p.region.stop.before q.region.start = true
  | [], _, _ => .nil
  | [_], _, _ => List.pairwise_singleton _ _
  | p :: q :: ps, hordered, h => by
    unfold overlap? at h
    split at h
    · cases h
    · rename_i hpq
      have hpq' : p.region.stop.before q.region.start = true := by simpa [Position.upTo] using hpq
      have hrest := pairwise_of_overlap? (fun r hr => hordered r (List.mem_cons_of_mem _ hr)) h
      refine List.pairwise_cons.2 ⟨fun r hr => ?_, hrest⟩
      rcases List.mem_cons.1 hr with rfl | hr
      · exact hpq'
      · have hq := hordered q (by simp)
        have hqr := List.rel_of_pairwise_cons hrest hr
        simp only [Position.upTo_iff, Position.before_iff] at hpq' hq hqr ⊢
        omega

/-- **Patches within the lines are refused only because they overlap.** -/
theorem applicable_or_overlapping {d : Document} {patches : List Patch}
    (hordered : ∀ p ∈ patches, p.region.start.upTo p.region.stop = true)
    (hheld : ∀ p ∈ patches, HoldsIn d.lines p.region.start ∧ HoldsIn d.lines p.region.stop) :
    Applicable d.lines (sortPatches patches) ∨ ∃ a b, d.apply patches = .error (.overlapping a b) := by
  have hordered' : ∀ p ∈ sortPatches patches, p.region.start.upTo p.region.stop = true :=
    fun p hp => hordered p ((mem_sortPatches _ p).1 hp)
  cases hov : overlap? (sortPatches patches) with
  | none => exact .inl ⟨hordered', pairwise_of_overlap? hordered' hov, fun p hp => hheld p ((mem_sortPatches _ p).1 hp)⟩
  | some regions =>
    have hfind : (sortPatches patches).find? (fun p => p.region.stop.before p.region.start) = none :=
      List.find?_eq_none.2 fun p hp => by simpa [Position.upTo] using hordered' p hp
    exact .inr ⟨regions.1, regions.2, by simp only [apply, refusal?, hfind, hov]⟩

end Document

/-! ## Stretches of a script -/

/-- **A stretch of a script and what takes its place**, in offsets of the tree. -/
structure Stretch where
  span : Span
  content : List Char

/-- **Two spans with text between them.** -/
def Source.Span.Separate (a b : Span) : Prop := a.hi < b.lo ∨ b.hi < a.lo

/-- **A span with another one inside.** -/
def Source.Span.holds (outer inner : Span) : Bool := outer.lo ≤ inner.lo && inner.hi ≤ outer.hi

theorem Source.Span.Separate.symm {a b : Span} (h : a.Separate b) : b.Separate a := Or.symm h

namespace Script

/-- **A stretch as a patch.** -/
def patch (script : Script) (s : Stretch) : Patch := ⟨script.region s.span, s.content⟩

/-- **A stretch in bytes of the file.** -/
def byteEdit (script : Script) (s : Stretch) : ByteEdit :=
  ⟨s.span.lo + script.markLength, s.span.hi + script.markLength, s.content⟩

/-- **A span that can be cut out of a script.** -/
structure Cuts (script : Script) (span : Span) : Prop where
  lo_le_hi : span.lo ≤ span.hi
  lo : Cut script.text (span.lo + script.markLength)
  hi : Cut script.text (span.hi + script.markLength)

variable {script : Script}

theorem position_of_cut {n : Nat} (h : Cut script.text (n + script.markLength)) (map : Option SourceMap) :
    let lines := (Document.ofText script.text map).lines
    Document.HoldsIn lines (script.position n) ∧ Document.offsetIn lines (script.position n) = n + script.markLength := by
  obtain ⟨p, hp, hin, hoff⟩ := Document.positionOf_cut h map
  have hpos : script.position n = p := by simp [position, hp]
  rw [hpos]
  exact ⟨hin, hoff⟩

theorem position_before_iff {m n : Nat} (hm : Cut script.text (m + script.markLength))
    (hn : Cut script.text (n + script.markLength)) : (script.position m).before (script.position n) = true ↔ m < n := by
  obtain ⟨p, hp, -⟩ := Document.positionOf_cut hm none
  obtain ⟨q, hq, -⟩ := Document.positionOf_cut hn none
  have hlt : ∀ {i j : Nat} {x y : Position}, Cut script.text (i + script.markLength) →
      Cut script.text (j + script.markLength) → i < j → positionOf script.text (i + script.markLength) = some x →
        positionOf script.text (j + script.markLength) = some y → x.before y = true :=
    fun hi hj hij => Document.positionOf_before hi hj (by omega)
  simp only [position, hp, hq, Option.getD_some]
  refine ⟨fun h => ?_, fun h => hlt hm hn h hp hq⟩
  rcases Nat.lt_trichotomy m n with hmn | rfl | hnm
  · exact hmn
  · obtain rfl : p = q := Option.some.inj (hp.symm.trans hq)
    simp only [Position.before_iff] at h
    omega
  · have h' := hlt hn hm hnm hq hp
    simp only [Position.before_iff] at h h'
    omega

theorem apart_iff_separate {a b : Stretch} (ha : script.Cuts a.span) (hb : script.Cuts b.span) :
    (script.patch a).Apart (script.patch b) ↔ a.span.Separate b.span :=
  or_congr (position_before_iff ha.hi hb.lo) (position_before_iff hb.hi ha.lo)

theorem ordered_patch {s : Stretch} (h : script.Cuts s.span) :
    (script.patch s).region.start.upTo (script.patch s).region.stop = true := by
  have hnot := mt (position_before_iff h.hi h.lo).1 (Nat.not_lt.2 h.lo_le_hi)
  simpa [Position.upTo, patch, region] using hnot

theorem byteEdit_patch {s : Stretch} (h : script.Cuts s.span) (map : Option SourceMap) :
    Document.byteEdit (Document.ofText script.text map).lines (script.patch s) = script.byteEdit s := by
  simp only [Document.byteEdit, patch, region, byteEdit]
  rw [(position_of_cut h.lo map).2, (position_of_cut h.hi map).2]

/-- **Stretches that can be cut out** are replaced at once if they are separate, and refused as overlapping if not. -/
theorem apply_stretches {stretches : List Stretch} (hcuts : ∀ s ∈ stretches, script.Cuts s.span)
    (map : Option SourceMap) :
    (stretches.Pairwise (fun a b => a.span.Separate b.span) ∧
      ∃ d edits, (Document.ofText script.text map).apply (stretches.map script.patch) = .ok d ∧
        edits.Perm (stretches.map script.byteEdit) ∧ Replaced 0 script.text edits d.text) ∨
    (¬ stretches.Pairwise (fun a b => a.span.Separate b.span) ∧
      ∃ a b, (Document.ofText script.text map).apply (stretches.map script.patch) = .error (.overlapping a b)) := by
  have hordered : ∀ p ∈ stretches.map script.patch, p.region.start.upTo p.region.stop = true :=
    List.forall_mem_map.2 fun s hs => ordered_patch (hcuts s hs)
  have hheld : ∀ p ∈ stretches.map script.patch,
      Document.HoldsIn (Document.ofText script.text map).lines p.region.start ∧
        Document.HoldsIn (Document.ofText script.text map).lines p.region.stop :=
    List.forall_mem_map.2 fun s hs => ⟨(position_of_cut (hcuts s hs).lo map).1, (position_of_cut (hcuts s hs).hi map).1⟩
  have happ : Document.Applicable (Document.ofText script.text map).lines
      (Document.sortPatches (stretches.map script.patch)) ↔ stretches.Pairwise fun a b => a.span.Separate b.span := by
    rw [Document.applicable_iff_apart hordered hheld, List.pairwise_map]
    exact ⟨fun h => h.imp_of_mem fun ha hb => (apart_iff_separate (hcuts _ ha) (hcuts _ hb)).1,
      fun h => h.imp_of_mem fun ha hb => (apart_iff_separate (hcuts _ ha) (hcuts _ hb)).2⟩
  by_cases hsep : stretches.Pairwise fun a b => a.span.Separate b.span
  · have hreplaced := Document.linesText_edits (happ.2 hsep) (Document.ofText script.text map).header.isSome ⟨none, 0⟩
    rw [show Document.linesText (Document.ofText script.text map).lines = script.text from
      Document.text_ofText script.text map] at hreplaced
    refine .inl ⟨hsep, _, _, Document.apply_of_applicable (happ.2 hsep), ?_, hreplaced⟩
    rw [← List.map_congr_left fun s hs => byteEdit_patch (hcuts s hs) map, ← Function.comp_def, ← List.map_map]
    exact (List.mergeSort_perm ..).map _
  · exact .inr ⟨hsep, (Document.applicable_or_overlapping hordered hheld).resolve_left fun h => hsep (happ.1 h)⟩

end Script
end Localizer
