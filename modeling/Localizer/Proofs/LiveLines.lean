import Localizer.Proofs.LineBreaks
import Localizer.Proofs.Relocation
/-!
# LiveLines — the lines that an edited text has

An edited document keeps joined lines without content among the others.  Those that have content are the lines of its
text: a patch leaves one line in place of those that it reaches over, with some text in it and the ending of the last of
them, so no line break is made, lost or fused with another one (`Document.broken_splice`).
-/
namespace Localizer

open Text (Unbroken Line Broken joinLines splitLines takeUnits dropUnits)

namespace Text

theorem Unbroken.append {a b : List Char} (ha : Unbroken a) (hb : Unbroken b) : Unbroken (a ++ b) :=
  ⟨fun h => (List.mem_append.1 h).elim ha.1 hb.1, fun h => (List.mem_append.1 h).elim ha.2 hb.2⟩

theorem Unbroken.takeUnits {cs : List Char} (h : Unbroken cs) (n : Nat) : Unbroken (takeUnits cs n) := by
  rw [← takeUnits_append_dropUnits cs n] at h
  exact ⟨fun hr => h.1 (List.mem_append_left _ hr), fun hn => h.2 (List.mem_append_left _ hn)⟩

theorem Unbroken.dropUnits {cs : List Char} (h : Unbroken cs) (n : Nat) : Unbroken (dropUnits cs n) := by
  rw [← takeUnits_append_dropUnits cs n] at h
  exact ⟨fun hr => h.1 (List.mem_append_right _ hr), fun hn => h.2 (List.mem_append_right _ hn)⟩

namespace Broken

variable {l m : Line} {front rest rest' : List Line}

theorem unbroken (h : Broken (l :: rest)) : Unbroken l.content := by
  cases h <;> assumption

theorem of_append (h : Broken (front ++ l :: rest)) : Broken (l :: rest) := by
  induction front with
  | nil => exact h
  | cons k front ih =>
    refine ih ?_
    obtain ⟨next, more, hnext⟩ := List.exists_cons_of_ne_nil (show front ++ l :: rest ≠ [] by simp)
    rw [List.cons_append, hnext] at h
    rw [hnext]
    cases h
    assumption

/-- **Another content for the first line.** -/
theorem setContent (h : Broken (l :: rest)) {content : List Char} (hcontent : Unbroken content) :
    Broken (⟨content, l.ending⟩ :: rest) := by
  cases h with
  | last => exact .last hcontent
  | cons _ hending hfuses hrest => exact .cons hcontent hending hfuses hrest

/-- **Other lines behind some**, if they start with a line that holds some text. -/
theorem exchange (h : Broken (front ++ l :: rest)) (hnew : Broken (m :: rest')) (hm : m.content ≠ []) :
    Broken (front ++ m :: rest') := by
  induction front with
  | nil => exact hnew
  | cons k front ih =>
    cases front with
    | nil =>
      cases h with
      | cons hcontent hending _ _ => exact .cons hcontent hending (fun hfuses => hm (hfuses.2 ▸ rfl)) hnew
    | cons next front =>
      cases h with
      | cons hcontent hending hfuses hrest => exact .cons hcontent hending hfuses (ih hrest)

end Broken
end Text

namespace Document

/-- **The lines that have content.** -/
def liveLines (lines : List DocumentLine) : List Line :=
  lines.filterMap fun l => l.content.map fun content => ⟨content, l.ending⟩

theorem liveLines_append (a b : List DocumentLine) : liveLines (a ++ b) = liveLines a ++ liveLines b :=
  List.filterMap_append

theorem liveLines_cons {l : DocumentLine} {content : List Char} (h : l.content = some content)
    (ls : List DocumentLine) : liveLines (l :: ls) = ⟨content, l.ending⟩ :: liveLines ls := by
  rw [liveLines, List.filterMap_cons, h]
  rfl

theorem liveLines_joined {ls : List DocumentLine} (h : ∀ l ∈ ls, l.content = none) : liveLines ls = [] := by
  refine List.filterMap_eq_nil_iff.2 fun l hl => ?_
  rw [h l hl]
  rfl

theorem joinLines_liveLines (lines : List DocumentLine) : joinLines (liveLines lines) = linesText lines := by
  induction lines with
  | nil => rfl
  | cons l ls ih =>
    rw [linesText_cons, ← ih]
    cases hl : l.content with
    | none => simp [liveLines, DocumentLine.text, hl]
    | some content =>
      rw [liveLines_cons hl]
      simp [DocumentLine.text, hl, joinLines, Line.text]

theorem liveLines_congr {a b : List DocumentLine} (h : outline a = outline b) : liveLines a = liveLines b := by
  have hlive : ∀ ls : List DocumentLine, liveLines ls =
      (outline ls).filterMap fun l => l.1.map fun content => ⟨content, l.2⟩ := by
    intro ls
    rw [outline, List.filterMap_map]
    rfl
  rw [hlive, hlive, h]

/-! ## One patch -/

/-- **What a patch leaves of the live lines**: one line with the patch's content and the ending of the line where the
patch stops, in place of those that it reaches over. -/
theorem liveLines_splice {lines : List DocumentLine} {p : Patch} (hstart : HoldsIn lines p.region.start)
    (hstop : HoldsIn lines p.region.stop) (hle : p.region.start.upTo p.region.stop = true) :
    ∃ front joined first last rest, liveLines lines = front ++ joined ++ last :: rest ∧
      (joined ++ [last]).head? = some first ∧ liveLines (splice lines p) = front ++
        ⟨takeUnits first.content p.region.start.character ++ p.content ++
          dropUnits last.content p.region.stop.character, last.ending⟩ :: rest := by
  rcases (Text.Position.upTo_iff _ _).1 hle with hlt | ⟨heq, -⟩
  · obtain ⟨pre, l, mid, m, post, c, e, rfl, hpre, hc, -, hmid, he, -⟩ := hstart.split_two hstop hlt
    refine ⟨liveLines pre, ⟨c, l.ending⟩ :: liveLines mid, ⟨c, l.ending⟩, ⟨e, m.ending⟩, liveLines post, ?_, rfl, ?_⟩
    · simp only [liveLines_append, liveLines_cons hc, liveLines_cons he, List.append_assoc, List.cons_append]
    · have hjoined : liveLines (mid.map fun x => { x with content := none }) = [] := liveLines_joined (by simp)
      have hlast : liveLines ({ m with content := none, ending := .nothing } :: post) = liveLines post := rfl
      rw [splice_across hpre hmid hc he, liveLines_append, liveLines_cons rfl, liveLines_append, hjoined, hlast,
        List.nil_append]
  · obtain ⟨pre, l, post, c, rfl, hpre, hc, -⟩ := hstart.split
    refine ⟨liveLines pre, [], ⟨c, l.ending⟩, ⟨c, l.ending⟩, liveLines post, ?_, rfl, ?_⟩
    · rw [liveLines_append, liveLines_cons hc, List.append_nil]
    · rw [splice_within hpre heq.symm hc, liveLines_append, liveLines_cons rfl]

/-- **One patch keeps the live lines as lines should be.** -/
theorem broken_splice {lines : List DocumentLine} {p : Patch} (hstart : HoldsIn lines p.region.start)
    (hstop : HoldsIn lines p.region.stop) (hle : p.region.start.upTo p.region.stop = true) (hplain : p.Plain)
    (h : Broken (liveLines lines)) : Broken (liveLines (splice lines p)) := by
  obtain ⟨front, joined, first, last, rest, hlines, hfirst, hsplice⟩ := liveLines_splice hstart hstop hle
  obtain ⟨more, hmore⟩ := List.head?_eq_some_iff.1 hfirst
  have hall : liveLines lines = front ++ first :: (more ++ rest) := by
    rw [hlines, ← List.cons_append, ← hmore]
    simp
  have hfirst : Unbroken first.content := by
    rw [hall] at h
    exact h.of_append.unbroken
  have hlast : Broken (last :: rest) := by
    rw [hlines] at h
    exact h.of_append
  have hcontent : Unbroken (takeUnits first.content p.region.start.character ++ p.content ++
      dropUnits last.content p.region.stop.character) :=
    ((hfirst.takeUnits _).append hplain.2).append (hlast.unbroken.dropUnits _)
  rw [hall] at h
  rw [hsplice]
  exact h.exchange (hlast.setContent hcontent) (by simp [hplain.1])

/-! ## All patches -/

theorem broken_splices : ∀ (sorted : List Patch) {lines : List DocumentLine}, Applicable lines sorted →
    (∀ p ∈ sorted, p.Plain) → Broken (liveLines lines) →
    Broken (liveLines (sorted.reverse.foldl splice lines)) := by
  intro sorted
  -- the last patch is spliced first, and those before it can still be applied
  induction sorted using List.reverseRecOn with
  | nil => exact fun _ _ h => h
  | append_singleton ps p ih =>
    intro lines happ hplain h
    rw [List.reverse_append, List.reverse_singleton, List.singleton_append, List.foldl_cons]
    have hheld := happ.held p (by simp)
    refine ih happ.splice.1 (fun q hq => hplain q (List.mem_append_left _ hq)) ?_
    exact broken_splice hheld.1 hheld.2 (happ.ordered p (by simp)) (hplain p (by simp)) h

/-- **Patches keep the live lines as lines should be**, whatever edits the document has been through. -/
theorem broken_apply {d d' : Document} {patches : List Patch} (h : d.apply patches = .ok d')
    (hheld : ∀ p ∈ patches, HoldsIn d.lines p.region.start ∧ HoldsIn d.lines p.region.stop)
    (hplain : ∀ p ∈ patches, p.Plain) (hd : Broken (liveLines d.lines)) : Broken (liveLines d'.lines) := by
  have happ := applicable_of_apply h hheld
  rw [(edits_of_apply h).2, liveLines_congr (outline_edits d.header.isSome _ d.lines d.lines _ rfl)]
  exact broken_splices _ happ (fun p hp => hplain p ((mem_sortPatches _ p).1 hp)) hd

theorem liveLines_mapIdx (f : Nat → Line → DocumentLine)
    (hf : ∀ i l, (f i l).content = some l.content ∧ (f i l).ending = l.ending) (ls : List Line) :
    liveLines (ls.mapIdx f) = ls := by
  induction ls generalizing f with
  | nil => rfl
  | cons l ls ih =>
    rw [List.mapIdx_cons, liveLines_cons (hf 0 l).1, (hf 0 l).2, ih _ fun i => hf (i + 1)]

theorem liveLines_ofText (text : List Char) (map : Option SourceMap) :
    liveLines (ofText text map).lines = splitLines text :=
  liveLines_mapIdx _ (fun _ _ => ⟨rfl, rfl⟩) _

/-- **The live lines of an edited text are its lines.**  Patches that lie within the lines of a text and put some text
without line breaks in place of their regions leave a text whose lines are the contents and endings of the lines that
have content, in this order. -/
theorem splitLines_text_apply (text : List Char) (map : Option SourceMap) (patches : List Patch) (d : Document)
    (hheld : ∀ p ∈ patches, (ofText text map).holds p.region.start = true ∧
      (ofText text map).holds p.region.stop = true)
    (hplain : ∀ p ∈ patches, p.content ≠ [] ∧ '\r' ∉ p.content ∧ '\n' ∉ p.content)
    (h : (ofText text map).apply patches = .ok d) :
    splitLines d.text = d.lines.filterMap fun l => l.content.map fun content => ⟨content, l.ending⟩ := by
  have hfresh : Broken (liveLines (ofText text map).lines) := by
    rw [liveLines_ofText]
    exact Text.broken_splitLines text
  have hheld : ∀ p ∈ patches, HoldsIn (ofText text map).lines p.region.start ∧
      HoldsIn (ofText text map).lines p.region.stop :=
    fun p hp => ⟨(holds_iff _ _).1 (hheld p hp).1, (holds_iff _ _).1 (hheld p hp).2⟩
  have hlines := Text.splitLines_joinLines (broken_apply h hheld hplain hfresh)
  rwa [joinLines_liveLines] at hlines

/-- A patch over two line breaks up to a bare `\r`, and one on the line before, given in this order. -/
theorem splitLines_text_apply_joined :
    let text := ['a', '\r', 'b', '\r', '\n', '😀', 'c', '\n', '\r', 'd']
    let patches : List Patch := [⟨⟨⟨1, 1⟩, ⟨3, 0⟩⟩, ['y', 'z']⟩, ⟨⟨⟨0, 0⟩, ⟨0, 1⟩⟩, ['x']⟩]
    (∀ p ∈ patches, (ofText text none).holds p.region.start = true ∧ (ofText text none).holds p.region.stop = true) ∧
      (∀ p ∈ patches, p.content ≠ [] ∧ '\r' ∉ p.content ∧ '\n' ∉ p.content) ∧
      ∃ d, (ofText text none).apply patches = .ok d ∧ d.text = ['x', '\r', 'b', 'y', 'z', '\r', 'd'] ∧
        splitLines d.text = [⟨['x'], .carriage⟩, ⟨['b', 'y', 'z'], .carriage⟩, ⟨['d'], .nothing⟩] := by
  intro text patches
  have hheld : ∀ p ∈ patches, (ofText text none).holds p.region.start = true ∧
      (ofText text none).holds p.region.stop = true := by decide
  have hplain : ∀ p ∈ patches, p.content ≠ [] ∧ '\r' ∉ p.content ∧ '\n' ∉ p.content := by decide
  have happly : (ofText text none).apply patches = .ok ⟨[⟨some ['x'], .carriage, [], 0, 0⟩,
      ⟨some ['b', 'y', 'z'], .carriage, [], 0, 0⟩, ⟨none, .feed, [], 0, 0⟩, ⟨none, .nothing, [], 0, 0⟩,
      ⟨some ['d'], .nothing, [], 0, 0⟩], none⟩ := by cbv
  exact ⟨hheld, hplain, _, happly, by decide, splitLines_text_apply text none patches _ hheld hplain happly⟩

end Document
end Localizer
