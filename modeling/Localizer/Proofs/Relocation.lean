import Mathlib.Algebra.BigOperators.Group.List.Basic
import Localizer.Proofs.Cuts
import Localizer.Proofs.Stretches
import Localizer.Proofs.Unedited
/-!
# Relocation — a source map follows the edits of its text

Patches move the spots of a document (`spots_edits`) as far as they move the characters behind them: a spot stays at the
position of the same cut of the text, through one patch after another (`cutAt_edits`).  So the map of the edited text says
of each character that was kept what the map of the unedited text said (`sourceMap_relocated`).
-/
namespace Localizer

open Text (Position Region Unbroken CutAt unitLength byteLength positionOf splitLines)

/-- **A position between two characters of a line's content**, or at an end of it. -/
def Text.OnBoundary (cs : List Char) (q : Position) : Prop :=
  ∃ pre line post x y, splitLines cs = pre ++ line :: post ∧ pre.length = q.line ∧ line.content = x ++ y ∧
    unitLength x = q.character

theorem Text.onBoundary_iff (cs : List Char) (q : Position) :
    Text.OnBoundary cs q ↔
      ∃ line ∈ (splitLines cs)[q.line]?, unitLength (Text.takeUnits line.content q.character) = q.character := by
  constructor
  · rintro ⟨pre, line, post, x, y, hsplit, hpre, hcontent, hx⟩
    refine ⟨line, ?_, ?_⟩
    · rw [hsplit, ← hpre, List.getElem?_append_right (Nat.le_refl _), Nat.sub_self]
      rfl
    · rw [hcontent, ← hx, Text.takeUnits_append_left]
  · rintro ⟨line, hline, hx⟩
    obtain ⟨hlt, hget⟩ := List.getElem?_eq_some_iff.1 hline
    refine ⟨(splitLines cs).take q.line, line, (splitLines cs).drop (q.line + 1), _, _, ?_, ?_,
      (Text.takeUnits_append_dropUnits line.content q.character).symm, hx⟩
    · rw [← hget, ← List.drop_eq_getElem_cons hlt, List.take_append_drop]
    · rw [List.length_take]
      omega

instance (cs : List Char) (q : Position) : Decidable (Text.OnBoundary cs q) :=
  decidable_of_iff _ (Text.onBoundary_iff cs q).symm

/-- **A position as the place of a spot.** -/
def Text.Position.place (q : Position) : Int × Int := (q.line, q.character)

namespace Patch

/-- **A patch that puts some text without line breaks in place of its region.** -/
def Plain (p : Patch) : Prop := p.content ≠ [] ∧ Unbroken p.content

instance (p : Patch) : Decidable p.Plain := inferInstanceAs (Decidable (_ ∧ _ ∧ _))

theorem moveSpot_mapping {p : Patch} {s s' : Spot} (h : p.moveSpot s = some s') : s'.mapping = s.mapping := by
  unfold moveSpot at h
  split at h
  · cases h
  split at h
  · rw [← Option.some.inj h, Spot.carry]
    split <;> rfl
  · rw [Option.some.inj h]

theorem upTo_start_of_not {p : Patch} {q : Position} (hcovers : p.covers q = false) (hprecedes : p.precedes q = false) :
    q.upTo p.region.start = true := by
  unfold Position.upTo
  rw [Bool.not_eq_true']
  unfold covers precedes Position.upTo at *
  revert hcovers hprecedes
  cases p.region.start.before q <;> cases q.before p.region.stop <;> simp

/-- **A patch before one that moves a place moves it, too.** -/
theorem precedes_of_before {r p : Patch} {q : Position} (hregion : r.region.start.upTo r.region.stop = true)
    (h : r.region.stop.before p.region.start = true) (hprecedes : p.precedes q = true) : r.precedes q = true := by
  have hstart : p.region.start.before q = true := (Bool.and_eq_true _ _ ▸ hprecedes).1
  have hstop : r.region.stop.before q = true := Position.upTo_before (Position.before_upTo h) hstart
  rw [precedes, Position.upTo_before hregion hstop, Position.before_upTo hstop, Bool.and_self]

end Patch

namespace Document

theorem moveSpots_mapping {sorted : List Patch} {s s' : Spot} (h : moveSpots sorted s = some s') :
    s'.mapping = s.mapping := by
  induction sorted generalizing s' with
  | nil =>
    cases h
    rfl
  | cons p ps ih =>
    obtain ⟨t, ht, hs'⟩ := Option.bind_eq_some_iff.1 h
    rw [Patch.moveSpot_mapping hs', ih ht]

theorem moveSpots_of_covers {sorted : List Patch} {s : Spot} (h : ∃ p ∈ sorted, p.covers s.mapping.position = true) :
    moveSpots sorted s = none := by
  induction sorted with
  | nil =>
    obtain ⟨p, hp, -⟩ := h
    cases hp
  | cons p ps ih =>
    rw [moveSpots]
    cases hs : moveSpots ps s with
    | none => rfl
    | some t =>
      obtain ⟨q, hq, hcovers⟩ := h
      rcases List.mem_cons.1 hq with rfl | hq
      · rw [Option.bind_some, Patch.moveSpot, moveSpots_mapping hs, if_pos hcovers]
      · rw [ih ⟨q, hq, hcovers⟩] at hs
        cases hs

/-- **How many bytes longer a text gets by a patch.** -/
def gain (lines : List DocumentLine) (p : Patch) : Int :=
  (byteLength p.content : Int) - ((offsetIn lines p.region.stop : Int) - offsetIn lines p.region.start)

/-! ## A cut through all patches -/

theorem cutAt_of_onBoundary {text : List Char} {q : Position} (h : Text.OnBoundary text q) (map : Option SourceMap) :
    HoldsIn (ofText text map).lines q ∧
      CutAt (linesText (ofText text map).lines) (offsetIn (ofText text map).lines q) q := by
  have hlines : linesText (ofText text map).lines = text := text_ofText text map
  rw [hlines]
  obtain ⟨pre, line, post, x, y, hsplit, hpre, hcontent, hx⟩ := h
  obtain ⟨back, htext, hparted, hover⟩ := Text.reached_of_split text ⟨0, 0⟩ hsplit hcontent
  unfold ofText
  rw [hsplit, List.mapIdx_append, List.mapIdx_cons]
  refine ⟨holdsIn_of_split (by simp [hpre]) rfl ?_, ?_⟩
  · simp [hcontent, hx]
  · rw [offsetIn_of_split (by simp [hpre]) rfl, linesText_mapIdx _ fun _ _ => rfl, hcontent, ← hx,
      Text.takeUnits_append_left, ← Text.byteLength_append]
    refine ⟨_, back, htext, rfl, hparted, ?_⟩
    rw [hover, ite_self, Nat.zero_add, Nat.zero_add, hpre, hx]

/-- **One patch takes a cut and the spot that stands there along.** -/
theorem cutAt_splice {lines : List DocumentLine} {p : Patch} (hplain : p.Plain)
    (hheld : HoldsIn lines p.region.start ∧ HoldsIn lines p.region.stop)
    (hle : p.region.start.upTo p.region.stop = true)
    (hcuts : CutAt (linesText lines) (offsetIn lines p.region.start) p.region.start ∧
      CutAt (linesText lines) (offsetIn lines p.region.stop) p.region.stop) :
    (∀ n q, CutAt (linesText lines) n q → n ≤ offsetIn lines p.region.start → CutAt (linesText (splice lines p)) n q) ∧
      ∀ n q, CutAt (linesText lines) n q → offsetIn lines p.region.stop ≤ n →
        ∃ n' q', CutAt (linesText (splice lines p)) n' q' ∧ (n' : Int) = n + gain lines p ∧
          offsetIn lines p.region.start ≤ n' ∧
          ∀ m, (Spot.mk m q.place).carry p.region.stop.line p.shift = ⟨m, q'.place⟩ := by
  obtain ⟨front, old, back, htext, hfront, hold, hspliced⟩ := linesText_splice hheld.1 hheld.2 hle
  have hlo : byteLength front = offsetIn lines p.region.start := hfront
  have hhi : byteLength (front ++ old) = offsetIn lines p.region.stop := by
    rw [Text.byteLength_append, hfront]
    exact hold
  rw [htext] at hcuts ⊢
  rw [hspliced]
  refine ⟨fun n q hq hn => hq.before hplain.2 hplain.1 (by omega), fun n q hq hn => ?_⟩
  rw [← hlo, ← hhi] at hcuts
  have hstart := hcuts.1
  rw [List.append_assoc] at hstart
  obtain ⟨q', hq', hline, hsame, hother⟩ := hq.behind hplain.2 hplain.1 (by omega) hstart.of_front.1 hcuts.2.of_front.1
    hcuts.2.of_front.2
  rw [Text.byteLength_append] at hhi
  refine ⟨_, q', hq', ?_, ?_, fun m => ?_⟩
  · unfold gain
    omega
  · omega
  · unfold Spot.carry Spot.move Patch.shift Position.place
    dsimp only
    by_cases hqline : q.line = p.region.stop.line
    · have := hsame hqline
      rw [if_pos (by omega)]
      refine Spot.mk.injEq .. ▸ ⟨rfl, Prod.ext ?_ ?_⟩ <;> simp only [Prod.fst_add, Prod.snd_add] <;> omega
    · have := hother hqline
      rw [if_neg (by omega)]
      refine Spot.mk.injEq .. ▸ ⟨rfl, Prod.ext ?_ ?_⟩ <;> simp only [Prod.fst_add, Prod.snd_add] <;> omega

theorem gain_congr {a b : List DocumentLine} {p : Patch} (h : byteEdit a p = byteEdit b p) : gain a p = gain b p := by
  have hlo : offsetIn a p.region.start = offsetIn b p.region.start := congrArg Text.ByteEdit.lo h
  have hhi : offsetIn a p.region.stop = offsetIn b p.region.stop := congrArg Text.ByteEdit.hi h
  unfold gain
  rw [hlo, hhi]

/-- **All patches take a cut and its spot along**, from the last patch to the first. -/
theorem cutAt_edits (sorted : List Patch) {lines : List DocumentLine} (happ : Applicable lines sorted)
    (hplain : ∀ p ∈ sorted, p.Plain)
    (hcuts : ∀ p ∈ sorted, CutAt (linesText lines) (offsetIn lines p.region.start) p.region.start ∧
      CutAt (linesText lines) (offsetIn lines p.region.stop) p.region.stop)
    {m : Mapping} (hfree : ∀ p ∈ sorted, p.covers m.position = false) {n : Nat} {q : Position}
    (hq : CutAt (linesText lines) n q)
    (hside : ∀ p ∈ sorted, (p.precedes m.position = true → offsetIn lines p.region.stop ≤ n) ∧
      (p.precedes m.position = false → n ≤ offsetIn lines p.region.start)) :
    ∃ n' q', CutAt (linesText (sorted.reverse.foldl splice lines)) n' q' ∧
      moveSpots sorted ⟨m, q.place⟩ = some ⟨m, q'.place⟩ ∧
      (n' : Int) = n + ((sorted.filter (·.precedes m.position)).map (gain lines)).sum := by
  induction sorted using List.reverseRecOn generalizing lines n q with
  | nil => exact ⟨n, q, hq, rfl, by simp⟩
  | append_singleton ps p ih =>
    have hp : p ∈ ps ++ [p] := by simp
    have hmem : ∀ r ∈ ps, r ∈ ps ++ [p] := fun r hr => by simp [hr]
    obtain ⟨happ', hsame⟩ := happ.splice
    have hlo : ∀ r ∈ ps, offsetIn (splice lines p) r.region.start = offsetIn lines r.region.start := fun r hr =>
      congrArg Text.ByteEdit.lo (hsame r hr)
    have hhi : ∀ r ∈ ps, offsetIn (splice lines p) r.region.stop = offsetIn lines r.region.stop := fun r hr =>
      congrArg Text.ByteEdit.hi (hsame r hr)
    obtain ⟨hfront, hbehind⟩ := cutAt_splice (hplain p hp) (happ.held p hp) (happ.ordered p hp) (hcuts p hp)
    have hcuts' : ∀ r ∈ ps, CutAt (linesText (splice lines p)) (offsetIn (splice lines p) r.region.start) r.region.start ∧
        CutAt (linesText (splice lines p)) (offsetIn (splice lines p) r.region.stop) r.region.stop := by
      intro r hr
      rw [hlo r hr, hhi r hr]
      have hstop := happ.offset_le_last hr
      have hstart := (happ.offset_le (hmem r hr)).trans hstop
      exact ⟨hfront _ _ (hcuts r (hmem r hr)).1 hstart, hfront _ _ (hcuts r (hmem r hr)).2 hstop⟩
    have hgains : ((ps.filter (·.precedes m.position)).map (gain (splice lines p))) =
        (ps.filter (·.precedes m.position)).map (gain lines) :=
      List.map_congr_left fun r hr => gain_congr (hsame r (List.mem_filter.1 hr).1)
    have ih {n' q'} := ih happ' (fun r hr => hplain r (hmem r hr)) hcuts' (fun r hr => hfree r (hmem r hr))
      (n := n') (q := q')
    rw [List.reverse_append, List.reverse_singleton, List.singleton_append, List.foldl_cons, moveSpots_append_singleton,
      Patch.moveSpot, hfree p hp, List.filter_append, List.map_append, List.sum_append]
    simp only [Bool.false_eq_true, if_false]
    cases hprecedes : p.precedes m.position with
    | true =>
      obtain ⟨n', q', hq', hn', hge, hcarry⟩ := hbehind n q hq ((hside p hp).1 hprecedes)
      -- the patches before this one are before the spot, too
      have hside' : ∀ r ∈ ps, (r.precedes m.position = true → offsetIn (splice lines p) r.region.stop ≤ n') ∧
          (r.precedes m.position = false → n' ≤ offsetIn (splice lines p) r.region.start) := by
        intro r hr
        have hrprecedes := Patch.precedes_of_before (happ.ordered r (hmem r hr)) (happ.before_last hr) hprecedes
        refine ⟨fun _ => ?_, fun h => ?_⟩
        · rw [hhi r hr]
          exact (happ.offset_le_last hr).trans hge
        · rw [hrprecedes] at h
          cases h
      obtain ⟨n'', q'', hq'', hmove, hn''⟩ := ih hq' hside'
      refine ⟨n'', q'', hq'', ?_, ?_⟩
      · rw [if_pos rfl, hcarry, Option.bind_some]
        exact hmove
      · rw [hn'', hn', hgains]
        simp [hprecedes]
        omega
    | false =>
      have hn := (hside p hp).2 hprecedes
      obtain ⟨n'', q'', hq'', hmove, hn''⟩ := ih (hfront n q hq hn) fun r hr => by
        rw [hlo r hr, hhi r hr]
        exact hside r (hmem r hr)
      refine ⟨n'', q'', hq'', ?_, ?_⟩
      · rw [if_neg (by simp), Option.bind_some]
        exact hmove
      · rw [hn'', hgains]
        simp [hprecedes]

/-! ## Accepted patches -/

theorem edits_of_apply {d d' : Document} {patches : List Patch} (h : d.apply patches = .ok d') :
    d.refusal? (sortPatches patches) = none ∧
      d' = { d with lines := edits d.header.isSome d.lines ⟨none, 0⟩ (sortPatches patches).reverse } := by
  simp only [apply] at h
  split at h
  · cases h
  · rename_i hnone
    exact ⟨hnone, (Except.ok.inj h).symm⟩

theorem applicable_of_apply {d d' : Document} {patches : List Patch} (h : d.apply patches = .ok d')
    (hheld : ∀ p ∈ patches, HoldsIn d.lines p.region.start ∧ HoldsIn d.lines p.region.stop) :
    Applicable d.lines (sortPatches patches) := by
  have hordered : ∀ p ∈ patches, p.region.start.upTo p.region.stop = true := by
    intro p hp
    have hnone := (edits_of_apply h).1
    unfold refusal? at hnone
    split at hnone
    · cases hnone
    · rename_i hfind
      have := List.find?_eq_none.1 hfind p ((mem_sortPatches _ p).2 hp)
      simpa [Position.upTo] using this
  rcases applicable_or_overlapping hordered hheld with happ | ⟨a, b, herror⟩
  · exact happ
  · rw [herror] at h
    cases h

/-- **Patches apart from each other and between two offsets** do not take away more bytes than there are. -/
theorem sum_gain_ge {lines : List DocumentLine} {lo hi : Nat} (hle : lo ≤ hi) : ∀ {ps : List Patch},
    ps.Pairwise (fun p q => offsetIn lines p.region.stop ≤ offsetIn lines q.region.start) →
    (∀ p ∈ ps, lo ≤ offsetIn lines p.region.start ∧ offsetIn lines p.region.start ≤ offsetIn lines p.region.stop ∧
      offsetIn lines p.region.stop ≤ hi) →
    (lo : Int) ≤ hi + (ps.map (gain lines)).sum
  | [], _, _ => by simpa using hle
  | p :: ps, hapart, hbetween => by
    obtain ⟨hlo, hp, hhi⟩ := hbetween p (by simp)
    have hrest := sum_gain_ge hhi hapart.of_cons fun q hq => ⟨List.rel_of_pairwise_cons hapart hq,
      (hbetween q (by simp [hq])).2⟩
    rw [List.map_cons, List.sum_cons]
    unfold gain at hrest ⊢
    omega

/-! ## The map of an edited text -/

/-- **The lines of a text**, with no map. -/
abbrev linesOf (text : List Char) : List DocumentLine := (ofText text none).lines

/-- **The mappings that patches leave**: on a line of the text, and covered by no patch. -/
def kept (text : List Char) (patches : List Patch) (ms : List Mapping) : List Mapping :=
  (within (splitLines text).length ms).filter fun m => patches.all fun p => !p.covers m.position

/-- **The offset of a mapping, moved by the patches that precede it.** -/
def movedOffset (text : List Char) (patches : List Patch) (m : Mapping) : Int :=
  offsetIn (linesOf text) m.position + ((patches.filter (·.precedes m.position)).map (gain (linesOf text))).sum

/-- **Where a mapping is in an edited text**: at the position of its moved offset. -/
def Relocated (text : List Char) (patches : List Patch) (edited : List Char) (m : Mapping) (q : Position) : Prop :=
  ∃ n : Nat, (n : Int) = movedOffset text patches m ∧ positionOf edited n = some q

theorem outline_ofText (text : List Char) (map map' : Option SourceMap) :
    outline (ofText text map).lines = outline (ofText text map').lines := by
  unfold outline ofText
  refine List.ext_getElem? fun i => ?_
  simp only [List.getElem?_map, List.getElem?_mapIdx, Option.map_map]
  rfl

section Fresh

variable {text : List Char} {patches : List Patch} (happ : Applicable (linesOf text) (sortPatches patches))
include happ

/-- **A mapping through all patches.** -/
theorem cutAt_of_kept (hbounds : ∀ p ∈ patches, Text.OnBoundary text p.region.start ∧ Text.OnBoundary text p.region.stop)
    (hplain : ∀ p ∈ patches, p.Plain) {m : Mapping} (hm : Text.OnBoundary text m.position)
    (hfree : ∀ p ∈ patches, p.covers m.position = false) :
    ∃ n q, CutAt (linesText ((sortPatches patches).reverse.foldl splice (linesOf text))) n q ∧
      moveSpots (sortPatches patches) ⟨m, m.place⟩ = some ⟨m, q.place⟩ ∧ (n : Int) = movedOffset text patches m := by
  have hsorted : ∀ {p}, p ∈ sortPatches patches → p ∈ patches := fun {p} hp => (mem_sortPatches _ p).1 hp
  obtain ⟨hmheld, hmcut⟩ := cutAt_of_onBoundary hm none
  obtain ⟨n, q, hq, hmove, hn⟩ := cutAt_edits (sortPatches patches) happ (fun p hp => hplain p (hsorted hp))
    (fun p hp => ⟨(cutAt_of_onBoundary (hbounds p (hsorted hp)).1 none).2,
      (cutAt_of_onBoundary (hbounds p (hsorted hp)).2 none).2⟩)
    (fun p hp => hfree p (hsorted hp)) hmcut (by
      intro p hp
      have hheld := happ.held p hp
      refine ⟨fun hprecedes => offsetIn_mono hheld.2 hmheld (Bool.and_eq_true _ _ ▸ hprecedes).2, fun hprecedes => ?_⟩
      exact offsetIn_mono hmheld hheld.1 (Patch.upTo_start_of_not (hfree p (hsorted hp)) hprecedes))
  refine ⟨n, q, hq, hmove, hn.trans ?_⟩
  have hperm : (sortPatches patches).Perm patches := List.mergeSort_perm ..
  rw [((hperm.filter _).map _).sum_eq]
  rfl

/-- **Mappings keep their order.** -/
theorem movedOffset_mono {a b : Mapping} (ha : HoldsIn (linesOf text) a.position) (hb : HoldsIn (linesOf text) b.position)
    (hfree : ∀ p ∈ patches, p.covers a.position = false) (hab : a.position.upTo b.position = true) :
    movedOffset text patches a ≤ movedOffset text patches b := by
  have hperm : (sortPatches patches).Perm patches := List.mergeSort_perm ..
  have hboth : ∀ p : Patch, p.precedes a.position = true → p.precedes b.position = true := by
    intro p hp
    simp only [Patch.precedes, Bool.and_eq_true, Position.before_iff, Position.upTo_iff] at hp hab ⊢
    omega
  -- the patches that precede only the second one lie between the two
  have hbetween : (offsetIn (linesOf text) a.position : Int) ≤ offsetIn (linesOf text) b.position +
      (((sortPatches patches).filter fun p => p.precedes b.position && !p.precedes a.position).map
        (gain (linesOf text))).sum := by
    refine sum_gain_ge (offsetIn_mono ha hb hab) ((happ.apart.imp_of_mem fun {p q} hp hq hpq =>
      offsetIn_mono (happ.held p hp).2 (happ.held q hq).1 (Position.before_upTo hpq)).filter _) fun p hp => ?_
    obtain ⟨hp, hside⟩ := List.mem_filter.1 hp
    rw [Bool.and_eq_true, Bool.not_eq_true'] at hside
    have hheld := happ.held p hp
    exact ⟨offsetIn_mono ha hheld.1 (Patch.upTo_start_of_not (hfree p (hperm.subset hp)) hside.2),
      happ.offset_le hp,
      offsetIn_mono hheld.2 hb (Bool.and_eq_true _ _ ▸ hside.1).2⟩
  have hsplit : ((patches.filter (·.precedes b.position)).map (gain (linesOf text))).sum =
      ((patches.filter (·.precedes a.position)).map (gain (linesOf text))).sum +
        ((patches.filter fun p => p.precedes b.position && !p.precedes a.position).map (gain (linesOf text))).sum := by
    clear hbetween hperm happ hfree
    induction patches with
    | nil => rfl
    | cons p ps ih =>
      have := hboth p
      cases hpa : p.precedes a.position <;> cases hpb : p.precedes b.position <;> simp_all <;> omega
  rw [((hperm.filter _).map _).sum_eq] at hbetween
  unfold movedOffset
  omega

end Fresh

theorem upTo_of_cutAt {cs : List Char} {i j : Nat} {p q : Position} (hp : CutAt cs i p) (hq : CutAt cs j q) (hle : i ≤ j) :
    p.upTo q = true := by
  have hcut : ∀ {n : Nat} {r : Position}, CutAt cs n r → Text.Cut cs n := by
    rintro n r ⟨a, b, heq, hn, hparted, -⟩
    exact ⟨a, b, heq, hn, hparted⟩
  rcases Nat.lt_or_eq_of_le hle with hlt | rfl
  · exact Position.before_upTo (positionOf_before (hcut hp) (hcut hq) hlt hp.positionOf hq.positionOf)
  · obtain rfl : p = q := Option.some.inj (hp.positionOf.symm.trans hq.positionOf)
    rw [Position.upTo_iff]
    omega

theorem mapping?_of_position {m : Mapping} {q : Position} (h : q.line < mapLimit ∧ q.character < mapLimit) :
    (Spot.mk m q.place).mapping? = some { m with line := q.line, column := q.character } := by
  have hplace := mapping?_place { m with line := q.line, column := q.character }
  rw [if_pos h] at hplace
  unfold Spot.mapping? at hplace ⊢
  exact hplace

theorem forall₂_filterMap {α β : Type} {f : α → Option β} {keep : α → Bool} {r : α → β → Prop} {l : List α}
    (hdrop : ∀ x ∈ l, keep x = false → f x = none) (hkeep : ∀ x ∈ l, keep x = true → ∃ y, f x = some y ∧ r x y) :
    List.Forall₂ r (l.filter keep) (l.filterMap f) := by
  induction l with
  | nil => exact .nil
  | cons x l ih =>
    have hrest := ih (fun y hy => hdrop y (List.mem_cons_of_mem _ hy)) fun y hy => hkeep y (List.mem_cons_of_mem _ hy)
    cases hx : keep x with
    | false =>
      rw [List.filter_cons_of_neg (by simp [hx]), List.filterMap_cons_none (hdrop x (List.mem_cons_self ..) hx)]
      exact hrest
    | true =>
      obtain ⟨y, hy, hr⟩ := hkeep x (List.mem_cons_self ..) hx
      rw [List.filter_cons_of_pos hx, List.filterMap_cons_some hy]
      exact .cons hr hrest

/-- **A mapping after patches**, unless they cover it. -/
def relocate (patches : List Patch) (m : Mapping) : Option Mapping :=
  (moveSpots (sortPatches patches) ⟨m, m.place⟩).bind Spot.mapping?

theorem relocate_of_covers {patches : List Patch} {m : Mapping}
    (h : (patches.all fun p => !p.covers m.position) = false) : relocate patches m = none := by
  obtain ⟨p, hp, hcovers⟩ := List.all_eq_false.1 h
  have hnone : moveSpots (sortPatches patches) ⟨m, m.place⟩ = none :=
    moveSpots_of_covers ⟨p, (mem_sortPatches _ p).2 hp, by simpa using hcovers⟩
  rw [relocate, hnone, Option.bind_none]

theorem sweepLines_apply {text : List Char} {map : SourceMap} {patches : List Patch} {d : Document}
    (hordered : Ordered map.mappings) (happ : Applicable (ofText text (some map)).lines (sortPatches patches))
    (happly : (ofText text (some map)).apply patches = .ok d) :
    sweepLines 0 0 d.lines = (within (splitLines text).length map.mappings).filterMap (relocate patches) := by
  have hspots := (spots_edits (sortPatches patches) happ (ready_ofText hordered) (homed_ofText hordered) (by simp)).2
  have hsweep := sweepLines_eq 0 d.lines
  rw [(edits_of_apply happly).2] at hsweep ⊢
  rw [spots_ofText hordered, List.filterMap_map] at hspots
  refine hsweep.trans ((congrArg (List.filterMap _) hspots).trans ?_)
  rw [List.filterMap_filterMap]
  rfl

theorem text_apply {text : List Char} {map : SourceMap} {patches : List Patch} {d : Document}
    (happly : (ofText text (some map)).apply patches = .ok d) :
    d.text = linesText ((sortPatches patches).reverse.foldl splice (linesOf text)) := by
  rw [(edits_of_apply happly).2]
  exact outline_text (outline_edits _ _ _ _ _ (outline_ofText text _ none))

/-- **The map of an edited text follows the edits.**  Take a text, a readable map whose places on lines of the text are
between characters, and patches that are accepted, start and stop between characters and put text without line breaks in
place of their regions.  As long as the numbers fit into a map, the written map of the edited text is read back with
exactly the mappings that no patch covers, in their order and with the same origins, each where the edited text has its
offset, moved by the patches before it; only repetitions of the mapping just before are left out. -/
theorem sourceMap_relocated (text : List Char) (input : String) (map : SourceMap) (patches : List Patch) (d : Document)
    (hmap : SourceMap.decode input = some map)
    (hplaces : ∀ m ∈ map.mappings, (splitLines text).length ≤ m.line ∨ Text.OnBoundary text m.position)
    (happly : (ofText text (some map)).apply patches = .ok d)
    (hbounds : ∀ p ∈ patches, Text.OnBoundary text p.region.start ∧ Text.OnBoundary text p.region.stop)
    (hplain : ∀ p ∈ patches, p.Plain)
    (hfits : ∀ m ∈ kept text patches map.mappings, ∀ q, Relocated text patches d.text m q →
      q.line < mapLimit ∧ q.character < mapLimit) :
    ∃ out back moved, d.sourceMap = some out ∧ SourceMap.decode (SourceMap.encode out) = some back ∧
      back.mappings = moved.destutter (· ≠ ·) ∧
      List.Forall₂ (fun m m' => m'.origin = m.origin ∧ Relocated text patches d.text m m'.position)
        (kept text patches map.mappings) moved := by
  obtain ⟨⟨sources, names, htabled⟩, hordered⟩ := SourceMap.storable_of_decode hmap
  have happ := applicable_of_apply happly fun p hp =>
    ⟨(cutAt_of_onBoundary (hbounds p hp).1 _).1, (cutAt_of_onBoundary (hbounds p hp).2 _).1⟩
  have happ0 : Applicable (linesOf text) (sortPatches patches) := happ.congr (outline_ofText text _ none)
  obtain ⟨ms, hms⟩ : ∃ ms, ms = within (splitLines text).length map.mappings := ⟨_, rfl⟩
  have honBoundary : ∀ m ∈ ms, Text.OnBoundary text m.position := by
    intro m hm
    obtain ⟨hm, hline⟩ := mem_within.1 (hms ▸ hm)
    exact (hplaces m hm).resolve_left (by omega)
  have hkeep : ∀ m ∈ ms, (patches.all fun p => !p.covers m.position) = true → ∃ n q, CutAt d.text n q ∧
      (n : Int) = movedOffset text patches m ∧ q.character < mapLimit ∧
      relocate patches m = some { m with line := q.line, column := q.character } := by
    intro m hm hall
    have hfree : ∀ p ∈ patches, p.covers m.position = false := fun p hp => by
      simpa using List.all_eq_true.1 hall p hp
    obtain ⟨n, q, hq, hmove, hn⟩ := cutAt_of_kept happ0 hbounds hplain (honBoundary m hm) hfree
    rw [← text_apply happly] at hq
    have hfit := hfits m (List.mem_filter.2 ⟨hms ▸ hm, hall⟩) q ⟨n, hn, hq.positionOf⟩
    refine ⟨n, q, hq, hn, hfit.2, ?_⟩
    rw [relocate, hmove, Option.bind_some, mapping?_of_position hfit]
  have hfree : ∀ m, ∀ m' ∈ relocate patches m, (patches.all fun p => !p.covers m.position) = true := by
    intro m m' hm'
    by_contra hall
    rw [relocate_of_covers (Bool.eq_false_iff.2 hall)] at hm'
    cases hm'
  have hmoved : Ordered (ms.filterMap (relocate patches)) := by
    have hsorted : Ordered ms := hms ▸ List.Pairwise.filter _ hordered
    refine List.pairwise_filterMap.2 (hsorted.imp_of_mem fun {a b} ha hb hab a' ha' b' hb' => ?_)
    obtain ⟨i, p, hp, hi, -, hfa⟩ := hkeep a ha (hfree a a' ha')
    obtain ⟨j, q, hq, hj, -, hfb⟩ := hkeep b hb (hfree b b' hb')
    obtain rfl : _ = a' := Option.some.inj (hfa.symm.trans ha')
    obtain rfl : _ = b' := Option.some.inj (hfb.symm.trans hb')
    have hmono := movedOffset_mono happ0 (cutAt_of_onBoundary (honBoundary a ha) none).1
      (cutAt_of_onBoundary (honBoundary b hb) none).1
      (fun p hp => by simpa using List.all_eq_true.1 (hfree a _ hfa) p hp)
      ((Position.upTo_iff _ _).2 ((SourceMap.upTo_iff a b).1 hab))
    rw [SourceMap.upTo_iff]
    exact (Position.upTo_iff p q).1 (upTo_of_cutAt hp hq (by omega))
  have hstorable : SourceMap.Storable (ms.filterMap (relocate patches)) := by
    refine ⟨sources, names, fun m' hm' => ?_⟩
    obtain ⟨m, hm, hfm⟩ := List.mem_filterMap.1 hm'
    obtain ⟨n, q, -, -, hcolumn, hfm'⟩ := hkeep m hm (hfree m m' hfm)
    obtain rfl : _ = m' := Option.some.inj (hfm'.symm.trans hfm)
    exact ⟨hcolumn, (htabled m (mem_within.1 (hms ▸ hm)).1).2⟩
  have hout : d.sourceMap = some ⟨map.header, ms.filterMap (relocate patches)⟩ := by
    have hheader : d.header = some map.header := by
      rw [(edits_of_apply happly).2]
      rfl
    simp only [sourceMap, hheader, Option.map_some, sweepLines_apply hordered happ happly, ← hms,
      SourceMap.sortMappings_of_pairwise hmoved]
  refine ⟨_, _, ms.filterMap (relocate patches), hout, SourceMap.decode_encode hstorable, ?_, ?_⟩
  · exact congrArg (List.destutter _) (SourceMap.sortMappings_of_pairwise hmoved)
  · unfold kept
    rw [← hms]
    refine forall₂_filterMap (fun m _ => relocate_of_covers) fun m hm hall => ?_
    obtain ⟨n, q, hq, hn, -, hfm⟩ := hkeep m hm hall
    exact ⟨_, hfm, rfl, n, hn, hq.positionOf⟩

/-- One patch within a line and before it, on the same line, the start of one that joins the next line; a mapping behind
both, one at the start of the second patch, one inside it and one past the text. -/
theorem sourceMap_relocated_joined :
    let text := ['a', 'b', '😀', 'c', '\n', 'd', 'e', 'f']
    let patches : List Patch := [⟨⟨⟨0, 0⟩, ⟨0, 1⟩⟩, ['x', 'y', 'z']⟩, ⟨⟨⟨0, 4⟩, ⟨1, 1⟩⟩, ['w']⟩]
    let origin (line : Nat) : Option Origin := some ⟨"a.ts", line, 0, none⟩
    let map : SourceMap := ⟨⟨none, []⟩,
      [⟨0, 1, origin 1⟩, ⟨0, 4, origin 2⟩, ⟨1, 0, origin 3⟩, ⟨1, 2, origin 4⟩, ⟨5, 0, origin 5⟩]⟩
    ∃ d, (ofText text (some map)).apply patches = .ok d ∧ d.text = ['x', 'y', 'z', 'b', '😀', 'w', 'e', 'f'] ∧
      ∃ out back, d.sourceMap = some out ∧ SourceMap.decode (SourceMap.encode out) = some back ∧
        back.mappings = [⟨0, 3, origin 1⟩, ⟨0, 8, origin 4⟩] := by
  intro text patches origin map
  have hread : SourceMap.decode (SourceMap.encode map) = some map := by
    rw [SourceMap.decode_encode (SourceMap.storable_of_numbered (by decide) (by decide))]
    cbv
  obtain ⟨d, hd, htext⟩ : ∃ d, (ofText text (some map)).apply patches = .ok d ∧
      d.text = ['x', 'y', 'z', 'b', '😀', 'w', 'e', 'f'] := ⟨_, by cbv, by cbv⟩
  have hplaces : ∀ m ∈ map.mappings, (splitLines text).length ≤ m.line ∨ Text.OnBoundary text m.position := by
    decide +kernel
  have hbounds : ∀ p ∈ patches, Text.OnBoundary text p.region.start ∧ Text.OnBoundary text p.region.stop := by
    decide +kernel
  have hplain : ∀ p ∈ patches, p.Plain := by decide
  have hkept : kept text patches map.mappings = [⟨0, 1, origin 1⟩, ⟨1, 2, origin 4⟩] := by decide +kernel
  have hfirst : ∀ q, Relocated text patches d.text ⟨0, 1, origin 1⟩ q → q = ⟨0, 3⟩ := by
    rintro q ⟨n, hn, hq⟩
    have hoffset : movedOffset text patches ⟨0, 1, origin 1⟩ = 3 := by decide +kernel
    obtain rfl : n = 3 := by omega
    rw [htext, Text.positionOf_eq_advance] at hq
    exact (Option.some.inj hq).symm
  have hsecond : ∀ q, Relocated text patches d.text ⟨1, 2, origin 4⟩ q → q = ⟨0, 8⟩ := by
    rintro q ⟨n, hn, hq⟩
    have hoffset : movedOffset text patches ⟨1, 2, origin 4⟩ = 10 := by decide +kernel
    obtain rfl : n = 10 := by omega
    rw [htext, Text.positionOf_eq_advance] at hq
    exact (Option.some.inj hq).symm
  have hfits : ∀ m ∈ kept text patches map.mappings, ∀ q, Relocated text patches d.text m q →
      q.line < mapLimit ∧ q.character < mapLimit := by
    rw [hkept]
    intro m hm q hq
    rcases List.mem_cons.1 hm with rfl | hm
    · rw [hfirst q hq]
      decide
    · obtain rfl := List.mem_singleton.1 hm
      rw [hsecond q hq]
      decide
  obtain ⟨out, back, moved, hout, hback, hmappings, hmoved⟩ :=
    sourceMap_relocated text _ map patches d hread hplaces hd hbounds hplain hfits
  refine ⟨d, hd, htext, out, back, hout, hback, ?_⟩
  rw [hkept] at hmoved
  obtain ⟨a, rest, ⟨haorigin, ha⟩, hrest, rfl⟩ := List.forall₂_cons_left_iff.1 hmoved
  obtain ⟨b, none, ⟨hborigin, hb⟩, hnone, rfl⟩ := List.forall₂_cons_left_iff.1 hrest
  obtain rfl := List.forall₂_nil_left_iff.1 hnone
  have ha' : a = ⟨0, 3, origin 1⟩ := by
    obtain ⟨hline, hcolumn⟩ := Position.mk.inj (hfirst _ ha)
    exact Mapping.mk.injEq .. ▸ ⟨hline, hcolumn, haorigin⟩
  have hb' : b = ⟨0, 8, origin 4⟩ := by
    obtain ⟨hline, hcolumn⟩ := Position.mk.inj (hsecond _ hb)
    exact Mapping.mk.injEq .. ▸ ⟨hline, hcolumn, hborigin⟩
  rw [hmappings, ha', hb']
  decide +kernel

end Document
end Localizer
