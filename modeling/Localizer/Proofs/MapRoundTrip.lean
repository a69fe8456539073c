import Mathlib.Data.List.Perm.Subperm
import Localizer.Proofs.JsonText
import Localizer.Proofs.MapText
/-!
# MapRoundTrip — a written source map is read back

The text of a map spells the value that describes it, and that value gives back the file, the contents of the sources
and the mappings (`SourceMap.decode_encode`).  This takes mappings that a map can hold, with numbers below its limit and
not too many sources and names; all mappings that were read from a map are such (`SourceMap.storable_of_decode`).
-/
namespace Localizer
namespace SourceMap

/-! ## The value of a map -/

theorem maybe?_list {α β : Type} {value : Json → Option β} {given : α → Json} {read : α → β}
    (h : ∀ a, value (given a) = some (read a)) (l : List α) :
    Json.maybe? (Json.list? value) (some (.array (l.map given))) = some (some (l.map read)) := by
  have hread : (l.map given).mapM value = some (l.map read) := by
    induction l with
    | nil => rfl
    | cons a l ih => simp [List.mapM_cons, h, ih]
  simp [Json.maybe?, Json.nullable?, Json.list?, hread]

theorem spelled_toJson (map : SourceMap) : Json.Spelled Json.depthLimit (toJson map) (Json.compactChars (toJson map)) := by
  have hstrings (depth : Nat) (l : List String) :
      Json.Spelled (depth + 1) (Json.ofStrings l) (Json.compactChars (Json.ofStrings l)) := by
    refine Json.spelled_compact_array fun v hv => ?_
    obtain ⟨s, -, rfl⟩ := List.mem_map.1 hv
    exact Json.spelled_string s
  have hoption (depth : Nat) (o : Option String) :
      Json.Spelled depth (Json.ofOption o) (Json.compactChars (Json.ofOption o)) := by
    cases o with
    | none => exact Json.spelled_null
    | some s => exact Json.spelled_string s
  unfold toJson
  refine Json.spelled_compact_object (by simp) fun m hm => ?_
  simp only [List.mem_append, List.mem_cons, List.not_mem_nil, or_false] at hm
  rcases hm with (((rfl | hm) | rfl) | hm) | (rfl | rfl)
  · exact Json.spelled_digit (by decide)
  · obtain ⟨f, -, rfl⟩ : ∃ f, map.header.file = some f ∧ m = ("file", Json.string f) := by
      cases hf : map.header.file <;> simp_all
    exact Json.spelled_string f
  · exact hstrings 125 _
  · split at hm
    · cases hm
    · rw [List.mem_singleton.1 hm]
      refine Json.spelled_compact_array fun v hv => ?_
      obtain ⟨s, -, rfl⟩ := List.mem_map.1 hv
      exact hoption _ _
  · exact hstrings 125 _
  · exact Json.spelled_string _

theorem fields?_toJson (map : SourceMap) :
    Json.fields? memberNames (toJson map) = some [some (Json.ofNat 3), map.header.file.map .string,
      some (Json.ofStrings (allSources map.header (sortMappings map.mappings))), none,
      if map.header.contents.isEmpty then none
      else some (.array ((allSources map.header (sortMappings map.mappings)).map fun s =>
        Json.ofOption (contentsOf map.header s))),
      some (Json.ofStrings (usedNames (sortMappings map.mappings))),
      some (.string (String.ofList (mappingsText (allSources map.header (sortMappings map.mappings))
        (usedNames (sortMappings map.mappings)) ⟨0, 0, 0, 0, 0, 0⟩ none (sortMappings map.mappings)))),
      none, none, none, none] := by
  unfold toJson
  cases map.header.file <;> by_cases hcontents : map.header.contents.isEmpty = true <;>
    simp [Json.fields?, memberNames, Json.member?, hcontents]

/-- **The contents that a header gives to sources.** -/
def contentsIn (h : MapHeader) (sources : Numbering) : List (String × String) :=
  sources.filterMap fun s => (contentsOf h s).map (s, ·)

theorem maybe?_contents (h : MapHeader) (sources : Numbering) :
    ∃ contents, Json.maybe? (Json.list? (Json.nullable? Json.string?))
        (if h.contents.isEmpty then none
        else some (.array (sources.map fun s => Json.ofOption (contentsOf h s)))) = some contents ∧
      ((sources.zip (contents.getD [])).filterMap fun p => p.2.map (p.1, ·)) = contentsIn h sources := by
  by_cases hempty : h.contents.isEmpty = true
  · have hnone (s : String) : contentsOf h s = none := by
      rw [contentsOf, List.isEmpty_iff.1 hempty]
      rfl
    exact ⟨none, by rw [if_pos hempty]; rfl, by simp [contentsIn, hnone]⟩
  · refine ⟨some (sources.map (contentsOf h)), ?_, ?_⟩
    · rw [if_neg hempty]
      refine maybe?_list (fun s => ?_) sources
      cases contentsOf h s <;> rfl
    · unfold contentsIn
      induction sources with
      | nil => rfl
      | cons s sources ih => cases hs : contentsOf h s <;> simp_all

theorem ofJson_toJson (map : SourceMap) :
    ofJson (toJson map) =
      (readOn (allSources map.header (sortMappings map.mappings)) (usedNames (sortMappings map.mappings)) 0 0 ⟨0, 0, 0, 0⟩
        (mappingsText (allSources map.header (sortMappings map.mappings)) (usedNames (sortMappings map.mappings))
          ⟨0, 0, 0, 0, 0, 0⟩ none (sortMappings map.mappings))).map fun read =>
        ⟨⟨map.header.file, contentsIn map.header (allSources map.header (sortMappings map.mappings))⟩,
          sortMappings read⟩ := by
  have hversion : Json.maybe? (Json.natBelow? mapLimit) (some (Json.ofNat 3)) = some (some 3) := rfl
  have hfile : Json.maybe? some (map.header.file.map Json.string) = some (map.header.file.map Json.string) := by
    cases map.header.file <;> rfl
  have hfileText : (map.header.file.map Json.string).map fileText = map.header.file := by
    cases map.header.file <;> rfl
  have hsources (l : List String) :
      Json.maybe? (Json.list? (Json.nullable? Json.string?)) (some (Json.ofStrings l)) = some (some (l.map some)) := by
    refine maybe?_list (fun s => ?_) l
    rfl
  have hnames (l : List String) : Json.maybe? (Json.list? some) (some (Json.ofStrings l)) = some (some (l.map .string)) :=
    maybe?_list (fun _ => rfl) l
  have hplain (s : String) : Json.maybe? Json.string? (some (.string s)) = some (some s) := rfl
  have hmissing {α : Type} (value : Json → Option α) : Json.maybe? value none = some none := rfl
  have hrooted (l : List String) :
      ((l.map some).map fun s : Option String => s.getD "").map (fun s => String.ofList (rooted [] s.toList)) = l := by
    simp [rooted, Function.comp_def]
  have hnameTexts (l : List String) : (l.map Json.string).map nameText = l := by
    simp [nameText, Function.comp_def]
  obtain ⟨contents, hcontents, hzip⟩ :=
    maybe?_contents map.header (allSources map.header (sortMappings map.mappings))
  rw [ofJson, fields?_toJson]
  generalize allSources map.header (sortMappings map.mappings) = sources at *
  generalize usedNames (sortMappings map.mappings) = names at *
  simp only [Option.bind_eq_bind, Option.bind_some, hversion, hfile, hsources, hnames, hcontents, hplain, hmissing,
    Option.getD_some, Option.getD_none, String.toList_empty, String.toList_ofList, hrooted, hnameTexts, hzip, hfileText,
    Option.isSome_none, Bool.false_eq_true, if_false]
  rw [allLines_ranges (by simp [Text.pieces]), allLines_pieces]
  cases readOn sources names 0 0 ⟨0, 0, 0, 0⟩ _ <;> rfl

/-! ## Numbers of texts -/

namespace Numbering

theorem mem_add (table : Numbering) (t text : String) : text ∈ table.add t ↔ text ∈ table ∨ text = t := by
  unfold add
  split
  · rename_i h
    exact ⟨.inl, fun ht => ht.elim id fun heq => heq ▸ List.contains_iff_mem.1 h⟩
  · simp

theorem mem_addAll (table : Numbering) (texts : List String) (text : String) :
    text ∈ table.addAll texts ↔ text ∈ table ∨ text ∈ texts := by
  unfold addAll
  induction texts generalizing table with
  | nil => simp
  | cons t texts ih => rw [List.foldl_cons, ih, mem_add, List.mem_cons, or_assoc]

theorem nodup_addAll {table : Numbering} (h : table.Nodup) (texts : List String) : (table.addAll texts).Nodup := by
  unfold addAll
  induction texts generalizing table with
  | nil => exact h
  | cons t texts ih =>
    refine ih ?_
    unfold add
    split
    · exact h
    · rename_i hnew
      rw [← List.concat_eq_append]
      exact h.concat (by simpa using hnew)

/-- **Texts that have a number keep it.** -/
theorem number_addAll {table : Numbering} {text : String} (h : text ∈ table) (texts : List String) :
    (table.addAll texts).number text = table.number text := by
  unfold addAll
  induction texts generalizing table with
  | nil => rfl
  | cons t texts ih =>
    rw [List.foldl_cons, ih ((mem_add table t text).2 (.inl h))]
    unfold add number
    split
    · rfl
    · exact List.idxOf_append_of_mem h

/-- **A text of few has a small number.** -/
theorem number_lt_of_subset {texts known : List String} (hsub : texts ⊆ known) (hknown : known.length ≤ mapLimit)
    {text : String} (h : text ∈ texts) : (addAll [] texts).number text < mapLimit := by
  have hmem : text ∈ addAll [] texts := (mem_addAll [] texts text).2 (.inr h)
  have hall : addAll [] texts ⊆ known := by
    intro t ht
    rcases (mem_addAll [] texts t).1 ht with hnil | ht
    · cases hnil
    · exact hsub ht
  have hlength : (addAll [] texts).length ≤ known.length :=
    ((nodup_addAll List.nodup_nil texts).subperm hall).length_le
  have hlt : (addAll [] texts).number text < (addAll [] texts).length := List.idxOf_lt_length_of_mem hmem
  omega

end Numbering

/-- **A mapping that names sources and names of two lists**, all its numbers being those of a map. -/
def Tabled (sources names : List String) (m : Mapping) : Prop :=
  m.column < mapLimit ∧ ∀ o ∈ m.origin,
    o.source ∈ sources.take mapLimit ∧ o.line < mapLimit ∧ o.column < mapLimit ∧ ∀ n ∈ o.name, n ∈ names.take mapLimit

/-- **Mappings that a map can hold.** -/
def Storable (ms : List Mapping) : Prop := ∃ sources names : List String, ∀ m ∈ ms, Tabled sources names m

theorem Storable.subset {ms ms' : List Mapping} (h : Storable ms) (hsub : ms' ⊆ ms) : Storable ms' := by
  obtain ⟨sources, names, hms⟩ := h
  exact ⟨sources, names, fun m hm => hms m (hsub hm)⟩

theorem Storable.fits {ms : List Mapping} (h : Storable ms) (header : MapHeader) :
    ∀ m ∈ ms, Fits (allSources header ms) (usedNames ms) m := by
  obtain ⟨sources, names, hms⟩ := h
  intro m hm
  refine ⟨(hms m hm).1, fun o ho => ?_⟩
  obtain ⟨-, hline, hcolumn, -⟩ := (hms m hm).2 o ho
  have hsource : o.source ∈ ms.filterMap fun m => m.origin.map (·.source) :=
    List.mem_filterMap.2 ⟨m, hm, by rw [ho]; rfl⟩
  have hused : o.source ∈ usedSources ms := (Numbering.mem_addAll _ _ _).2 (.inr hsource)
  refine ⟨(Numbering.mem_addAll _ _ _).2 (.inl hused), ?_, hline, hcolumn, fun n hn => ?_⟩
  · rw [allSources, Numbering.number_addAll hused]
    refine Numbering.number_lt_of_subset (fun s hs => ?_) (List.length_take_le _ sources) hsource
    obtain ⟨m', hm', hs⟩ := List.mem_filterMap.1 hs
    obtain ⟨o', ho', rfl⟩ := Option.map_eq_some_iff.1 hs
    exact ((hms m' hm').2 o' ho').1
  · have hname : n ∈ ms.filterMap fun m => m.origin.bind (·.name) :=
      List.mem_filterMap.2 ⟨m, hm, by rw [ho]; exact hn⟩
    refine ⟨(Numbering.mem_addAll _ _ _).2 (.inr hname),
      Numbering.number_lt_of_subset (fun s hs => ?_) (List.length_take_le _ names) hname⟩
    obtain ⟨m', hm', hs⟩ := List.mem_filterMap.1 hs
    obtain ⟨o', ho', hn'⟩ := Option.bind_eq_some_iff.1 hs
    exact ((hms m' hm').2 o' ho').2.2.2 s hn'

/-! ## Order -/

theorem upTo_iff (a b : Mapping) : a.upTo b = true ↔ a.line < b.line ∨ (a.line = b.line ∧ a.column ≤ b.column) := by
  simp [Mapping.upTo]

theorem pairwise_sortMappings (ms : List Mapping) : (sortMappings ms).Pairwise fun a b => a.upTo b = true := by
  refine List.pairwise_mergeSort (fun a b c hab hbc => ?_) (fun a b => ?_) ms
  · rw [upTo_iff] at hab hbc ⊢
    omega
  · rw [Bool.or_eq_true, upTo_iff, upTo_iff]
    omega

theorem sortMappings_of_pairwise {ms : List Mapping} (h : ms.Pairwise fun a b => a.upTo b = true) :
    sortMappings ms = ms :=
  List.mergeSort_of_pairwise h

theorem mem_sortMappings {ms : List Mapping} {m : Mapping} : m ∈ sortMappings ms ↔ m ∈ ms := List.mem_mergeSort

/-- **A written map is read back**: its mappings by place, without those that repeat the one before. -/
theorem decode_encode {map : SourceMap} (h : Storable map.mappings) :
    decode (encode map) = some
      ⟨⟨map.header.file, contentsIn map.header (allSources map.header (sortMappings map.mappings))⟩,
        (sortMappings map.mappings).destutter (· ≠ ·)⟩ := by
  have hsorted := pairwise_sortMappings map.mappings
  have hstorable : Storable (sortMappings map.mappings) := h.subset fun m hm => mem_sortMappings.1 hm
  have hread : readOn (allSources map.header (sortMappings map.mappings)) (usedNames (sortMappings map.mappings)) 0 0
      ⟨0, 0, 0, 0⟩ (mappingsText (allSources map.header (sortMappings map.mappings))
        (usedNames (sortMappings map.mappings)) ⟨0, 0, 0, 0, 0, 0⟩ none (sortMappings map.mappings)) =
      some ((sortMappings map.mappings).destutter (· ≠ ·)) := by
    rw [← fresh_none]
    refine readOn_mappingsText ⟨?_, ?_, ?_, ?_, ?_⟩ (hstorable.fits map.header) ?_ (fun m _ => Nat.zero_le _) (by simp)
    case refine_6 =>
      refine hsorted.imp fun hab => ?_
      rw [upTo_iff] at hab
      omega
    all_goals decide
  have hdistinct : ((sortMappings map.mappings).destutter (· ≠ ·)).Pairwise fun a b => a.upTo b = true :=
    hsorted.sublist (List.destutter_sublist _ _)
  have hunguarded : unguarded (encode map).toList = some (Json.compactChars (toJson map)) := by
    rw [encode, Json.compact, String.toList_ofList]
    rfl
  rw [decode, hunguarded]
  simp only [Option.bind_eq_bind, Option.bind_some, Json.read_of_spelled (spelled_toJson map), ofJson_toJson, hread,
    Option.map_some, sortMappings_of_pairwise hdistinct]

/-! ## What is read can be written -/

theorem advanced_lt (n : Nat) (difference : Int) : advanced n difference < mapLimit := by
  have hpos : (0 : Int) < (mapLimit : Int) := by decide
  have h0 := Int.emod_nonneg (n + difference) (Int.ne_of_gt hpos)
  have h1 := Int.emod_lt_of_pos (n + difference) hpos
  unfold advanced
  omega

theorem mem_take_of_getElem? {texts : List String} {n limit : Nat} {text : String} (h : texts[n]? = some text)
    (hn : n < limit) : text ∈ texts.take limit := by
  refine List.mem_of_getElem? (i := n) ?_
  rw [List.getElem?_take_of_lt hn, h]

theorem tabled_of_segment {sources names : List String} {line column : Nat} {run run' : Running} {numbers : List Int}
    {m : Mapping} (h : segment sources names line column run numbers = some (m, run')) : Tabled sources names m := by
  unfold segment at h
  split at h
  · cases h
    exact ⟨advanced_lt _ _, fun o ho => by cases ho⟩
  · obtain ⟨source, hsource, heq⟩ := Option.map_eq_some_iff.1 h
    cases heq
    refine ⟨advanced_lt _ _, fun o ho => ?_⟩
    cases ho
    exact ⟨mem_take_of_getElem? hsource (advanced_lt _ _), advanced_lt _ _, advanced_lt _ _, fun n hn => by cases hn⟩
  · dsimp only at h
    split at h
    · rename_i source name hsource hname
      cases h
      refine ⟨advanced_lt _ _, fun o ho => ?_⟩
      cases ho
      refine ⟨mem_take_of_getElem? hsource (advanced_lt _ _), advanced_lt _ _, advanced_lt _ _, fun n hn => ?_⟩
      cases hn
      exact mem_take_of_getElem? hname (advanced_lt _ _)
    · cases h
  · cases h

theorem tabled_of_lineSegments {sources names : List String} {line column : Nat} {run : Running}
    {segments : List (List Char)} {ms : List Mapping} {run' : Running}
    (h : lineSegments sources names line column run segments = some (ms, run')) : ∀ m ∈ ms, Tabled sources names m := by
  fun_induction lineSegments sources names line column run segments generalizing ms run' with
  | case1 =>
    cases h
    simp
  | case2 column run segments ih => exact ih h
  | case3 column run text segments _ ih =>
    obtain ⟨numbers, -, h⟩ := Option.bind_eq_some_iff.1 h
    obtain ⟨⟨m, run1⟩, hm, h⟩ := Option.bind_eq_some_iff.1 h
    obtain ⟨⟨rest, run2⟩, hrest, h⟩ := Option.bind_eq_some_iff.1 h
    cases h
    intro x hx
    rcases List.mem_cons.1 hx with rfl | hx
    · exact tabled_of_segment hm
    · exact ih m run1 hrest x hx

theorem tabled_of_allLines {sources names : List String} {line : Nat} {run : Running} {ls ranges : List (List Char)}
    {ms : List Mapping} (h : allLines sources names line run ls ranges = some ms) : ∀ m ∈ ms, Tabled sources names m := by
  induction ls generalizing line run ranges ms with
  | nil =>
    cases h
    simp
  | cons l ls ih =>
    rw [allLines] at h
    split at h
    · exact ih h
    split at h
    · cases h
    · obtain ⟨⟨here, run'⟩, hhere, h⟩ := Option.bind_eq_some_iff.1 h
      obtain ⟨rest, hrest, h⟩ := Option.bind_eq_some_iff.1 h
      cases h
      intro m hm
      rcases List.mem_append.1 hm with hm | hm
      · exact tabled_of_lineSegments hhere m hm
      · exact ih hrest m hm

theorem storable_of_decode {text : String} {map : SourceMap} (h : decode text = some map) :
    Storable map.mappings ∧ map.mappings.Pairwise fun a b => a.upTo b = true := by
  obtain ⟨cs, -, h⟩ := Option.bind_eq_some_iff.1 h
  obtain ⟨v, -, h⟩ := Option.bind_eq_some_iff.1 h
  unfold ofJson at h
  obtain ⟨fields, -, h⟩ := Option.bind_eq_some_iff.1 h
  split at h
  · simp only [Option.bind_eq_bind, Option.bind_eq_some_iff] at h
    obtain ⟨_, -, _, -, _, -, _, -, _, -, _, -, _, -, _, -, _, -, _, -, sections, -, h⟩ := h
    split at h
    · cases h
    · obtain ⟨ms, hms, h⟩ := Option.bind_eq_some_iff.1 h
      cases h
      exact ⟨⟨_, _, fun m hm => tabled_of_allLines hms m (mem_sortMappings.1 hm)⟩, pairwise_sortMappings ms⟩
  · cases h

end SourceMap
end Localizer
