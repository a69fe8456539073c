import Localizer.Proofs.MapRoundTrip
import Localizer.Proofs.Moves
/-!
# Unedited — a text and its map before any patch

A decoded map has its mappings in order, so each line of a new document carries those of that line, as they are
(`mappingsOn_ofText`).  What the marks show then is what the map says of the lines of the text (`spots_ofText`).
-/
namespace Localizer

/-- **Mappings in order of their places.** -/
def Ordered (ms : List Mapping) : Prop := ms.Pairwise fun a b => a.upTo b = true

/-- **The mappings of a line.** -/
def onLine (line : Nat) (ms : List Mapping) : List Mapping := ms.filter fun m => m.line == line

/-- **The mappings of the first lines.** -/
def within (count : Nat) (ms : List Mapping) : List Mapping := ms.filter fun m => decide (m.line < count)

theorem mem_onLine {line : Nat} {ms : List Mapping} {m : Mapping} : m ∈ onLine line ms ↔ m ∈ ms ∧ m.line = line := by
  simp [onLine]

theorem mem_within {count : Nat} {ms : List Mapping} {m : Mapping} : m ∈ within count ms ↔ m ∈ ms ∧ m.line < count := by
  simp [within]

theorem Ordered.onLine {ms : List Mapping} (h : Ordered ms) (line : Nat) :
    (onLine line ms).Pairwise fun a b => a.column ≤ b.column := by
  refine (List.Pairwise.filter _ h).imp_of_mem fun {a b} ha hb hab => ?_
  have hlines : a.line = line ∧ b.line = line := ⟨(mem_onLine.1 ha).2, (mem_onLine.1 hb).2⟩
  rw [SourceMap.upTo_iff] at hab
  omega

theorem within_succ {ms : List Mapping} (h : Ordered ms) (count : Nat) :
    within (count + 1) ms = within count ms ++ onLine count ms := by
  induction ms with
  | nil => rfl
  | cons m ms ih =>
    have hrest : ∀ k ∈ ms, m.line ≤ k.line := by
      intro k hk
      have := (SourceMap.upTo_iff m k).1 (List.rel_of_pairwise_cons h hk)
      omega
    have ih := ih h.of_cons
    unfold within onLine at ih ⊢
    rcases Nat.lt_trichotomy m.line count with hlt | heq | hgt
    · rw [List.filter_cons_of_pos (by simp; omega), List.filter_cons_of_pos (by simpa using hlt),
        List.filter_cons_of_neg (by simp; omega), ih, List.cons_append]
    · -- all mappings behind stand on this line or further down
      have hnone : ms.filter (fun k => decide (k.line < count)) = [] :=
        List.filter_eq_nil_iff.2 fun k hk => by have := hrest k hk; simp; omega
      rw [List.filter_cons_of_pos (by simp; omega), List.filter_cons_of_neg (by simp; omega),
        List.filter_cons_of_pos (by simpa using heq), ih, hnone]
      rfl
    · rw [List.filter_cons_of_neg (by simp; omega), List.filter_cons_of_neg (by simp; omega),
        List.filter_cons_of_neg (by simp; omega), ih]

theorem flatMap_onLine {ms : List Mapping} (h : Ordered ms) (count : Nat) :
    (List.range count).flatMap (fun line => onLine line ms) = within count ms := by
  induction count with
  | zero => simp [within]
  | succ count ih => rw [List.range_succ, List.flatMap_append, ih, within_succ h, List.flatMap_singleton]

namespace Document

/-! ## Marks -/

theorem marksOn_eq {ms : List Mapping} (h : Ordered ms) (line : Nat) :
    marksOn line ms = (onLine line ms).map Mark.ofMapping := by
  have hsorted : (onLine line ms).Pairwise fun a b => Nat.ble a.column b.column = true :=
    (h.onLine line).imp fun hab => Nat.ble_eq.mpr hab
  unfold marksOn
  rw [show ms.filter (fun m => m.line == line) = onLine line ms from rfl, List.mergeSort_of_pairwise hsorted]

variable {text : List Char} {map : SourceMap}

theorem mappingsOn_ofText (h : Ordered map.mappings) :
    mappingsOn (ofText text (some map)).lines =
      (List.range (Text.splitLines text).length).map fun line => onLine line map.mappings := by
  unfold mappingsOn ofText
  refine List.ext_getElem? fun i => ?_
  simp only [List.getElem?_map, List.getElem?_mapIdx, Option.map_map, Option.map_some, Option.getD_some]
  by_cases hi : i < (Text.splitLines text).length
  · rw [List.getElem?_eq_getElem hi, List.getElem?_range hi]
    simp only [Option.map_some, Function.comp_apply, marksOn_eq h, List.map_map]
    exact congrArg some (List.map_id _)
  · rw [List.getElem?_eq_none (by omega), List.getElem?_eq_none (by simpa using hi)]
    rfl

theorem homed_ofText (h : Ordered map.mappings) : Homed (mappingsOn (ofText text (some map)).lines) := by
  intro i row hrow
  rw [mappingsOn_ofText h, List.getElem?_map] at hrow
  obtain ⟨line, hline, rfl⟩ := Option.map_eq_some_iff.1 hrow
  obtain ⟨-, rfl⟩ := List.getElem?_eq_some_iff.1 hline
  rw [List.getElem_range]
  exact ⟨h.onLine i, fun m hm => (mem_onLine.1 hm).2⟩

theorem pristine_ofText (h : Ordered map.mappings) : ∀ l ∈ (ofText text (some map)).lines, Pristine l := by
  intro l hl
  obtain ⟨i, hi, rfl⟩ := List.mem_mapIdx.1 hl
  refine ⟨rfl, fun m hm => ?_, rfl, rfl⟩
  rw [Option.map_some, Option.getD_some, marksOn_eq h] at hm
  obtain ⟨k, -, rfl⟩ := List.mem_map.1 hm
  rfl

theorem markSpots_untouched {ms : List Mark} (h : ∀ m ∈ ms, Untouched m) :
    markSpots 0 ms = (ms.map Mark.mapping).map fun m => ⟨m, m.place⟩ := by
  induction ms with
  | nil => rfl
  | cons m ms ih =>
    have hm : m = .ofMapping m.mapping := h m (List.mem_cons_self ..)
    have hshifts : m.shifts = 0 := by
      rw [hm]
      rfl
    have hkept : m.deleted = false := by
      rw [hm]
      rfl
    rw [markSpots, hshifts, hkept, add_zero, add_zero, ih fun k hk => h k (List.mem_cons_of_mem _ hk)]
    rfl

theorem spots_pristine {ls : List DocumentLine} (h : ∀ l ∈ ls, Pristine l) :
    spots 0 ls = (mappingsOn ls).flatten.map fun m => ⟨m, m.place⟩ := by
  induction ls with
  | nil => rfl
  | cons l ls ih =>
    have hl := h l (List.mem_cons_self ..)
    rw [spots, entering_zero, hl.still.leaving, markSpots_untouched hl.marks,
      ih fun k hk => h k (List.mem_cons_of_mem _ hk), ← List.map_append]
    rfl

theorem leveled_pristine {ls : List DocumentLine} (count : Nat) (h : ∀ l ∈ ls, Pristine l)
    (hhome : ∀ (i : Nat) (row : List Mapping), (mappingsOn ls)[i]? = some row → ∀ m ∈ row, m.line = count + i) :
    Leveled count 0 ls := by
  induction ls generalizing count with
  | nil => trivial
  | cons l ls ih =>
    have hl := h l (List.mem_cons_self ..)
    refine ⟨fun s hs => ?_, ?_⟩
    · rw [entering_zero, markSpots_untouched hl.marks] at hs
      obtain ⟨m, hm, rfl⟩ := List.mem_map.1 hs
      rw [if_pos hl.live]
      have := hhome 0 _ rfl m hm
      simp only [Mapping.place]
      omega
    · rw [hl.still.leaving, if_pos hl.live]
      refine ih (count + 1) (fun k hk => h k (List.mem_cons_of_mem _ hk)) fun i row hrow m hm => ?_
      have := hhome (i + 1) row hrow m hm
      omega

/-- **A new document is ready for any patch.** -/
theorem ready_ofText (h : Ordered map.mappings) : Ready none ⟨none, 0⟩ (ofText text (some map)).lines := by
  refine ⟨?_, ?_, ?_, ?_⟩
  · refine leveled_pristine 0 (pristine_ofText h) fun i row hrow m hm => ?_
    rw [Nat.zero_add]
    exact (homed_ofText h i row hrow).2 m hm
  · intro pre l post hlines _
    exact pristine_ofText h l (by rw [hlines]; simp)
  · intro _ _ _ _ q hq
    cases hq
  · intro _ _ _ _ hwalk
    cases hwalk

theorem spots_ofText (h : Ordered map.mappings) :
    spots 0 (ofText text (some map)).lines =
      (within (Text.splitLines text).length map.mappings).map fun m => ⟨m, m.place⟩ := by
  rw [spots_pristine (pristine_ofText h), mappingsOn_ofText h, ← List.flatMap_def, flatMap_onLine h]

theorem mapping?_place (m : Mapping) :
    (Spot.mk m m.place).mapping? = if m.line < mapLimit ∧ m.column < mapLimit then some m else none := by
  unfold Spot.mapping? Mapping.place
  generalize mapLimit = limit
  simp

theorem filterMap_mapping? (ms : List Mapping) (h : ∀ m ∈ ms, m.column < mapLimit) :
    (ms.map fun m => Spot.mk m m.place).filterMap Spot.mapping? = within mapLimit ms := by
  unfold within
  rw [List.filterMap_map, ← List.filterMap_eq_filter]
  refine List.filterMap_congr fun m hm => ?_
  have hcolumn := h m hm
  rw [Function.comp_apply, mapping?_place, Option.guard]
  by_cases hline : m.line < mapLimit
  · rw [if_pos ⟨hline, hcolumn⟩, if_pos (decide_eq_true hline)]
  · rw [if_neg fun h => hline h.1, if_neg (by rw [decide_eq_true_eq]; exact hline)]

/-- **The map of an unedited text** has the mappings of its lines. -/
theorem sourceMap_ofText (h : Ordered map.mappings) (hcolumns : ∀ m ∈ map.mappings, m.column < mapLimit) :
    (ofText text (some map)).sourceMap =
      some ⟨map.header, within (min (Text.splitLines text).length mapLimit) map.mappings⟩ := by
  have hsweep : sweepLines 0 0 (ofText text (some map)).lines =
      within mapLimit (within (Text.splitLines text).length map.mappings) := by
    have hspots := sweepLines_eq 0 (ofText text (some map)).lines
    rw [spots_ofText h, filterMap_mapping? _ fun m hm => hcolumns m (mem_within.1 hm).1] at hspots
    exact hspots
  have hwithin : within mapLimit (within (Text.splitLines text).length map.mappings) =
      within (min (Text.splitLines text).length mapLimit) map.mappings := by
    unfold within
    rw [List.filter_filter]
    refine List.filter_congr fun m _ => ?_
    rw [← Bool.decide_and, decide_eq_decide]
    omega
  have hordered : Ordered (within (min (Text.splitLines text).length mapLimit) map.mappings) := List.Pairwise.filter _ h
  simp only [sourceMap, hsweep, hwithin, SourceMap.sortMappings_of_pairwise hordered]
  rfl

end Document

/-! ## Maps written and read back -/

namespace SourceMap

/-- **The contents given last for a source.** -/
def GivenLast (contents : List (String × String)) (source text : String) : Prop :=
  ∃ before after, contents = before ++ (source, text) :: after ∧ ∀ c ∈ after, c.1 ≠ source

theorem contentsOf_eq_some {header : MapHeader} {source text : String} :
    contentsOf header source = some text ↔ GivenLast header.contents source text := by
  unfold contentsOf
  rw [List.findRev?_eq_findRev?TR, Option.map_eq_some_iff]
  constructor
  · rintro ⟨c, hfind, rfl⟩
    obtain ⟨hc, later, earlier, hsplit, hlater⟩ := List.find?_eq_some_iff_append.1 hfind
    obtain rfl : c.1 = source := eq_of_beq hc
    refine ⟨earlier.reverse, later.reverse, ?_, fun d hd => ?_⟩
    · rw [List.reverse_eq_iff.1 hsplit]
      simp
    · simpa using hlater d (List.mem_reverse.1 hd)
  · rintro ⟨before, after, hsplit, hafter⟩
    refine ⟨(source, text), List.find?_eq_some_iff_append.2 ⟨beq_self_eq_true _, after.reverse, before.reverse, ?_, ?_⟩,
      rfl⟩
    · rw [hsplit]
      simp
    · intro d hd
      simpa using hafter d (List.mem_reverse.1 hd)

theorem mem_contentsIn {header : MapHeader} {ms : List Mapping} {source text : String} :
    (source, text) ∈ contentsIn header (allSources header ms) ↔ GivenLast header.contents source text := by
  unfold contentsIn
  rw [List.mem_filterMap, ← contentsOf_eq_some]
  constructor
  · rintro ⟨s, -, hs⟩
    obtain ⟨t, ht, heq⟩ := Option.map_eq_some_iff.1 hs
    cases heq
    exact ht
  · intro h
    obtain ⟨before, after, hsplit, -⟩ := contentsOf_eq_some.1 h
    have hgiven : source ∈ header.contents.map (·.1) := List.mem_map.2 ⟨(source, text), by simp [hsplit], rfl⟩
    exact ⟨source, (Numbering.mem_addAll _ _ _).2 (.inr hgiven), by rw [h]; rfl⟩

theorem nodup_contentsIn (header : MapHeader) (ms : List Mapping) :
    ((contentsIn header (allSources header ms)).map (·.1)).Nodup := by
  have hsources : (allSources header ms).Nodup := Numbering.nodup_addAll (Numbering.nodup_addAll List.nodup_nil _) _
  have hsub : ∀ sources : List String, List.Sublist ((contentsIn header sources).map (·.1)) sources := by
    intro sources
    unfold contentsIn
    induction sources with
    | nil => exact List.Sublist.slnil
    | cons s sources ih =>
      cases hs : contentsOf header s with
      | none => simpa [hs] using ih.cons s
      | some t => simpa [hs] using ih.cons_cons s
  exact hsources.sublist (hsub _)

/-- **Mappings with few enough sources and names for numbers of a map.** -/
def Numbered (ms : List Mapping) : Prop := (usedSources ms).length ≤ mapLimit ∧ (usedNames ms).length ≤ mapLimit

instance (ms : List Mapping) : Decidable (Numbered ms) := inferInstanceAs (Decidable (_ ∧ _))

theorem storable_of_numbered {ms : List Mapping} (h : Numbered ms)
    (hms : ∀ m ∈ ms, m.column < mapLimit ∧ ∀ o ∈ m.origin, o.line < mapLimit ∧ o.column < mapLimit) : Storable ms := by
  refine ⟨usedSources ms, usedNames ms, fun m hm => ⟨(hms m hm).1, fun o ho => ?_⟩⟩
  rw [List.take_of_length_le h.1, List.take_of_length_le h.2]
  refine ⟨?_, ((hms m hm).2 o ho).1, ((hms m hm).2 o ho).2, fun n hn => ?_⟩
  · exact (Numbering.mem_addAll _ _ _).2 (.inr (List.mem_filterMap.2 ⟨m, hm, by rw [ho]; rfl⟩))
  · exact (Numbering.mem_addAll _ _ _).2 (.inr (List.mem_filterMap.2 ⟨m, hm, by rw [ho]; exact hn⟩))

theorem numbered_of_decode {input : String} {read : SourceMap} (h : decode input = some read) {ms : List Mapping}
    (hms : ∀ m ∈ ms, ∀ o ∈ m.origin, ∃ k ∈ read.mappings, k.origin = some o) : Numbered ms := by
  obtain ⟨⟨sources, names, htabled⟩, -⟩ := storable_of_decode h
  have hfew : ∀ texts known : List String, texts ⊆ known.take mapLimit →
      (Numbering.addAll [] texts).length ≤ mapLimit := by
    intro texts known hsub
    have hall : Numbering.addAll [] texts ⊆ known.take mapLimit := by
      intro t ht
      rcases (Numbering.mem_addAll [] texts t).1 ht with hnil | ht
      · cases hnil
      · exact hsub ht
    exact ((Numbering.nodup_addAll List.nodup_nil texts).subperm hall).length_le.trans (List.length_take_le _ _)
  refine ⟨hfew _ sources fun s hs => ?_, hfew _ names fun n hn => ?_⟩
  · obtain ⟨m, hm, hs⟩ := List.mem_filterMap.1 hs
    obtain ⟨o, ho, rfl⟩ := Option.map_eq_some_iff.1 hs
    obtain ⟨k, hk, hko⟩ := hms m hm o ho
    exact ((htabled k hk).2 o hko).1
  · obtain ⟨m, hm, hn⟩ := List.mem_filterMap.1 hn
    obtain ⟨o, ho, hname⟩ := Option.bind_eq_some_iff.1 hn
    obtain ⟨k, hk, hko⟩ := hms m hm o ho
    exact ((htabled k hk).2 o hko).2.2.2 n hname

/-- **Writing a map loses nothing.**  Let mappings have origins that were read from maps, at places of one's choice, and
few enough sources and names for the numbers of a map; those of one map that was read are never too many.  Then the
written map is read back with the mappings in order of their places, those of one place in the order given and only
repetitions of the mapping just before left out; with the file of the header; and with the contents given last for each
source.  So the map of a text that was not edited has the mappings that were read for its lines. -/
theorem decode_encode_of_decoded :
    (∀ (header : MapHeader) (ms : List Mapping),
      (∀ m ∈ ms, m.column < mapLimit ∧ ∀ o ∈ m.origin, ∃ input read, decode input = some read ∧
        ∃ k ∈ read.mappings, k.origin = some o) → Numbered ms →
      ∃ map, decode (encode ⟨header, ms⟩) = some map ∧ map.mappings = (sortMappings ms).destutter (· ≠ ·) ∧
        map.header.file = header.file ∧ (map.header.contents.map (·.1)).Nodup ∧
        ∀ source text, (source, text) ∈ map.header.contents ↔ GivenLast header.contents source text) ∧
    (∀ (input : String) (read : SourceMap), decode input = some read → ∀ ms : List Mapping,
      (∀ m ∈ ms, ∀ o ∈ m.origin, ∃ k ∈ read.mappings, k.origin = some o) → Numbered ms) ∧
    ∀ (input : String) (read : SourceMap), decode input = some read → ∀ text : List Char,
      ∃ map back, (Document.ofText text (some read)).sourceMap = some map ∧ decode (encode map) = some back ∧
        back.mappings = (within (min (Text.splitLines text).length mapLimit) read.mappings).destutter (· ≠ ·) ∧
        back.header.file = read.header.file ∧
        ∀ source content, (source, content) ∈ back.header.contents ↔ GivenLast read.header.contents source content := by
  refine ⟨fun header ms hms hnumbered => ?_, fun input read h ms hms => numbered_of_decode h hms,
    fun input read h text => ?_⟩
  · have hstorable : Storable ms := by
      refine storable_of_numbered hnumbered fun m hm => ⟨(hms m hm).1, fun o ho => ?_⟩
      obtain ⟨input, read, hread, k, hk, hko⟩ := (hms m hm).2 o ho
      obtain ⟨⟨sources, names, htabled⟩, -⟩ := storable_of_decode hread
      obtain ⟨-, hline, hcolumn, -⟩ := (htabled k hk).2 o hko
      exact ⟨hline, hcolumn⟩
    exact ⟨_, decode_encode hstorable, rfl, rfl, nodup_contentsIn _ _, fun _ _ => mem_contentsIn⟩
  · obtain ⟨hstorable, hordered⟩ := storable_of_decode h
    have hcolumns : ∀ m ∈ read.mappings, m.column < mapLimit := by
      obtain ⟨sources, names, htabled⟩ := hstorable
      exact fun m hm => (htabled m hm).1
    have hkept : Storable (within (min (Text.splitLines text).length mapLimit) read.mappings) :=
      hstorable.subset (List.filter_subset_self _)
    have hsorted : Ordered (within (min (Text.splitLines text).length mapLimit) read.mappings) :=
      List.Pairwise.filter _ hordered
    refine ⟨_, _, Document.sourceMap_ofText hordered hcolumns, decode_encode hkept, ?_, rfl, fun _ _ => mem_contentsIn⟩
    exact congrArg (List.destutter _) (sortMappings_of_pairwise hsorted)

/-- An origin that was read, given twice for a new place and behind a later one, and two contents of one source. -/
theorem decode_encode_of_decoded_moved :
    let origin : Origin := ⟨"a.ts", 3, 1, some "n"⟩
    let read : SourceMap := ⟨⟨none, []⟩, [⟨0, 4, some origin⟩]⟩
    let ms : List Mapping := [⟨1, 2, none⟩, ⟨0, 7, some origin⟩, ⟨0, 7, some origin⟩]
    decode (encode read) = some read ∧ Numbered ms ∧
      ∃ map, decode (encode ⟨⟨some "b.js", [("c", "1"), ("a.ts", "2"), ("c", "3")]⟩, ms⟩) = some map ∧
        map.mappings = [⟨0, 7, some origin⟩, ⟨1, 2, none⟩] ∧ map.header.file = some "b.js" ∧
        ("c", "3") ∈ map.header.contents := by
  intro origin read ms
  have hstorable : Storable read.mappings := storable_of_numbered (by decide) (by decide)
  have hread : decode (encode read) = some read := by
    rw [decode_encode hstorable]
    cbv
  have hnumbered : Numbered ms := by decide
  have hcolumns : ∀ m ∈ ms, m.column < mapLimit := by decide
  have horigins : ∀ m ∈ ms, ∀ o ∈ m.origin, ∃ k ∈ read.mappings, k.origin = some o := by decide
  obtain ⟨map, hmap, hms, hfile, -, hcontents⟩ :=
    decode_encode_of_decoded.1 ⟨some "b.js", [("c", "1"), ("a.ts", "2"), ("c", "3")]⟩ ms
      (fun m hm => ⟨hcolumns m hm, fun o ho => ⟨_, read, hread, horigins m hm o ho⟩⟩) hnumbered
  have hsorted : (sortMappings ms).destutter (· ≠ ·) = [⟨0, 7, some origin⟩, ⟨1, 2, none⟩] := by cbv
  exact ⟨hread, hnumbered, map, hmap, hms.trans hsorted, hfile,
    (hcontents "c" "3").2 ⟨[("c", "1"), ("a.ts", "2")], [], rfl, by simp⟩⟩

end SourceMap
end Localizer
