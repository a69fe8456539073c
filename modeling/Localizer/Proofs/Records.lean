import Localizer.Commands.Translate
import Localizer.Proofs.Commands
import Localizer.Proofs.JsonText
import Localizer.Proofs.Tables
/-!
# Records — files of messages are read back as they were written

A bundle with its path and a manifest are written over several lines.  The blanks of this form are such that the reader
skips them (`Json.spelled_pretty_array`, `Json.spelled_pretty_object`), and a text alone is never an object, so a bare
key stays bare and a commented one keeps its comments (`Key.ofJson_toJson`).  What one command has written the other one
reads as the same value (`Translate.metadata_read_back`).
-/
namespace Localizer

namespace Json

/-! ## What is printed over several lines -/

theorem gaps_freshLine (depth : Nat) : Gaps (freshLine depth) := by
  intro c hc
  unfold freshLine at hc
  rcases List.mem_cons.1 hc with rfl | hc
  · decide
  · rw [List.eq_of_mem_replicate hc]
    decide

theorem prettyElements_eq_map (depth : Nat) (vs : List Json) : prettyElements depth vs = vs.map (prettyChars depth) := by
  induction vs with
  | nil => rfl
  | cons v vs ih => rw [prettyElements, ih, List.map_cons]

theorem prettyMembers_eq_map (depth : Nat) (ms : List (String × Json)) :
    prettyMembers depth ms = ms.map (memberText [' '] (prettyChars depth)) := by
  induction ms with
  | nil => rfl
  | cons m ms ih =>
    rw [prettyMembers, ih, List.map_cons]
    rfl

theorem bracketed_eq {items : List (List Char)} (hne : items ≠ []) (depth : Nat) (opening closing : Char) :
    bracketed depth opening closing items = opening :: (freshLine (depth + 1) ++
      (Text.joined (',' :: freshLine (depth + 1)) items ++ (freshLine depth ++ [closing]))) := by
  unfold bracketed
  rw [if_neg (by simpa using hne)]
  simp

theorem spelled_pretty_array {depth indent : Nat} {vs : List Json}
    (hvs : ∀ v ∈ vs, Spelled depth v (prettyChars (indent + 1) v)) :
    Spelled (depth + 1) (.array vs) (prettyChars indent (.array vs)) := by
  by_cases hne : vs = []
  · subst hne
    exact spelled_noElements
  · have h := spelled_array (gaps_freshLine (indent + 1)) (gaps_freshLine indent) hne hvs
    rwa [prettyChars, prettyElements_eq_map, bracketed_eq (by simpa using hne)]

theorem spelled_noMembers {depth : Nat} : Spelled (depth + 1) (.object []) ['\x7b', '\x7d'] where
  head := ⟨'\x7b', ['\x7d'], rfl, by decide, by decide⟩
  read _ hlead _ := by
    rw [List.cons_append, readValue, skipGaps_gaps hlead (by decide)]
    simp only [List.cons_append, skipGaps_plain (show isGap '\x7d' = false by decide), List.nil_append]

theorem spelled_pretty_object {depth indent : Nat} {ms : List (String × Json)}
    (hms : ∀ m ∈ ms, Spelled depth m.2 (prettyChars (indent + 1) m.2)) :
    Spelled (depth + 1) (.object ms) (prettyChars indent (.object ms)) := by
  by_cases hne : ms = []
  · subst hne
    exact spelled_noMembers
  · have hblank : Gaps [' '] := by
      intro c hc
      rw [List.mem_singleton.1 hc]
      decide
    have h := spelled_object (gaps_freshLine (indent + 1)) hblank (gaps_freshLine indent) hne hms
    rwa [prettyChars, prettyMembers_eq_map, bracketed_eq (by simpa using hne)]

theorem spelled_pretty_strings {depth indent : Nat} (l : List String) :
    Spelled (depth + 1) (ofStrings l) (prettyChars indent (ofStrings l)) := by
  refine spelled_pretty_array fun v hv => ?_
  obtain ⟨s, -, rfl⟩ := List.mem_map.1 hv
  exact spelled_string s

theorem list?_map {α : Type} {value : Json → Option α} {given : α → Json} (h : ∀ a, value (given a) = some a)
    (l : List α) : list? value (.array (l.map given)) = some l := by
  unfold list?
  induction l with
  | nil => rfl
  | cons a l ih => simp [List.mapM_cons, h, ih]

theorem list?_ofStrings (l : List String) : list? string? (ofStrings l) = some l := by
  have hstring : ∀ s, string? (.string s) = some s := fun _ => rfl
  exact list?_map hstring l

end Json

open Json (Spelled prettyChars)

/-! ## Keys, bundles and manifests as values -/

theorem Key.spelled {depth indent : Nat} (k : Key) : Spelled (depth + 2) k.toJson (prettyChars indent k.toJson) := by
  cases k with
  | bare name => exact Json.spelled_string name
  | commented name comment =>
    refine Json.spelled_pretty_object fun m hm => ?_
    simp only [List.mem_cons, List.not_mem_nil, or_false] at hm
    rcases hm with rfl | rfl
    · exact Json.spelled_string name
    · exact Json.spelled_pretty_strings comment

/-- **A key is read as what it is**, bare or with comments. -/
theorem Key.ofJson_toJson (k : Key) : Key.ofJson k.toJson = some k := by
  cases k with
  | bare name => rfl
  | commented name comment =>
    simp [toJson, ofJson, Json.member?, Json.required?, Json.optional?, Json.string?, Json.list?_ofStrings]

theorem Key.spelled_list {depth indent : Nat} (ks : List Key) :
    Spelled (depth + 3) (.array (ks.map Key.toJson)) (prettyChars indent (.array (ks.map Key.toJson))) := by
  refine Json.spelled_pretty_array fun v hv => ?_
  obtain ⟨k, -, rfl⟩ := List.mem_map.1 hv
  exact k.spelled

theorem Bundle.spelled {depth indent : Nat} (b : Bundle) : Spelled (depth + 4) b.toJson (prettyChars indent b.toJson) := by
  refine Json.spelled_pretty_object fun m hm => ?_
  simp only [List.mem_cons, List.not_mem_nil, or_false] at hm
  rcases hm with rfl | rfl
  · exact Json.spelled_pretty_strings b.messages
  · exact Key.spelled_list b.keys

theorem Bundle.ofJson_toJson (b : Bundle) : Bundle.ofJson b.toJson = some b := by
  have hkeys : Json.list? Key.ofJson (.array (b.keys.map Key.toJson)) = some b.keys := Json.list?_map Key.ofJson_toJson _
  simp [toJson, ofJson, Json.fieldsOrElements?, Json.fields?, Json.member?, Json.required?, Json.list?_ofStrings, hkeys]

theorem BundleFile.spelled {depth indent : Nat} (f : BundleFile) :
    Spelled (depth + 4) f.toJson (prettyChars indent f.toJson) := by
  refine Json.spelled_pretty_object fun m hm => ?_
  simp only [List.mem_cons, List.not_mem_nil, or_false] at hm
  rcases hm with rfl | rfl | rfl
  · exact Json.spelled_pretty_strings f.bundle.messages
  · exact Key.spelled_list f.bundle.keys
  · exact Json.spelled_string f.path

theorem BundleFile.ofJson_toJson (f : BundleFile) : BundleFile.ofJson f.toJson = some f := by
  have hkeys : Json.list? Key.ofJson (.array (f.bundle.keys.map Key.toJson)) = some f.bundle.keys :=
    Json.list?_map Key.ofJson_toJson _
  simp [toJson, ofJson, Json.fieldsOrElements?, Json.fields?, Json.member?, Json.required?, Json.string?,
    Json.list?_ofStrings, hkeys]

theorem BundleFile.read_pretty (f : BundleFile) : (Json.read f.toJson.pretty.toList).bind BundleFile.ofJson = some f := by
  have hspelled : Spelled Json.depthLimit f.toJson (prettyChars 0 f.toJson) := BundleFile.spelled f
  rw [Json.pretty, String.toList_ofList, Json.read_of_spelled hspelled, Option.bind_some, BundleFile.ofJson_toJson]

theorem Manifest.spelled {depth indent : Nat} (m : Manifest) :
    Spelled (depth + 5) m.toJson (prettyChars indent m.toJson) := by
  refine Json.spelled_pretty_object fun p hp => ?_
  obtain ⟨q, -, rfl⟩ := List.mem_map.1 hp
  exact q.2.spelled

theorem Manifest.ofJson_toJson {m : Manifest} (h : Table.Sorted m) : Manifest.ofJson m.toJson = some m := by
  have hmembers : (m.map fun p => (p.1, p.2.toJson)).mapM (fun p => (Bundle.ofJson p.2).map (p.1, ·)) = some m := by
    clear h
    induction m with
    | nil => rfl
    | cons p m ih => simp [List.mapM_cons, Bundle.ofJson_toJson, ih]
  rw [Manifest.toJson, Manifest.ofJson, hmembers, Option.map_some, h.sort_eq]

/-! ## Written and read -/

theorem Disk.textOf_bytesOf (text : List Char) : Disk.textOf (Disk.bytesOf text) = .ok text := by
  have hread : ∀ s : String, String.fromUTF8? s.toUTF8 = some s := by
    intro s
    simp [String.fromUTF8?, String.fromUTF8, s.isValidUTF8]
  unfold Disk.textOf Disk.bytesOf
  rw [hread]
  exact congrArg Except.ok String.toList_ofList

namespace Translate

/-- **What a file holds is read from it.** -/
theorem doing_readValue {α : Type} {decode : Json → Option α} {tree : FileTree} {path : String} {text : List Char} {a : α}
    (htext : tree.read path = .ok (Disk.bytesOf text)) (h : (Json.read text).bind decode = some a) (progress : Progress) :
    tree.doing ((readValue decode path).run.run progress) = ((.ok a, progress), tree) := by
  have hread : tree.doing (Disk.readText path) = (.ok text, tree) := by
    rw [FileTree.doing_readText, FileTree.text, htext]
    exact congrArg (·, tree) (Disk.textOf_bytesOf text)
  -- asking the disk leaves the progress as it is
  have hask : ∀ g : Except FileError (List Char) → Part (StateM FileTree) α,
      tree.doing ((ask (Disk.readText path) >>= g).run.run progress) = tree.doing ((g (.ok text)).run.run progress) := by
    intro g
    change tree.doing (Disk.readText path >>= fun x => (g x).run.run progress) = _
    rw [FileTree.doing_bind hread]
  rw [readValue, hask]
  simp only [h]
  rfl

/-- **Files of messages are read back unchanged.**  The text that a bundle with its path is written as reads as that
bundle and path, each key bare or with its comments as it was, whatever characters the texts hold; and the text of a
manifest reads as that manifest.  So a file with the bytes that one command writes gives the other one the same value. -/
theorem metadata_read_back (f : BundleFile) (m : Manifest) (hm : Table.Sorted m) :
    (Json.read f.toJson.pretty.toList).bind BundleFile.ofJson = some f ∧
    (Json.read m.toJson.pretty.toList).bind Manifest.ofJson = some m ∧
    ∀ (tree : FileTree) (path : String) (progress : Progress),
      (tree.read path = .ok (Disk.bytesOf f.toJson.pretty.toList) →
        tree.doing ((readValue BundleFile.ofJson path).run.run progress) = ((.ok f, progress), tree)) ∧
      (tree.read path = .ok (Disk.bytesOf m.toJson.pretty.toList) →
        tree.doing ((readValue Manifest.ofJson path).run.run progress) = ((.ok m, progress), tree)) := by
  have hfile := f.read_pretty
  have hmanifest : (Json.read m.toJson.pretty.toList).bind Manifest.ofJson = some m := by
    have hspelled : Spelled Json.depthLimit m.toJson (prettyChars 0 m.toJson) := Manifest.spelled m
    rw [Json.pretty, String.toList_ofList, Json.read_of_spelled hspelled, Option.bind_some, Manifest.ofJson_toJson hm]
  exact ⟨hfile, hmanifest, fun tree path progress => ⟨fun h => doing_readValue h hfile progress,
    fun h => doing_readValue h hmanifest progress⟩⟩

/-- A key that looks like an object beside one with comments, and texts with quotes, backslashes and control characters. -/
theorem metadata_read_back_odd :
    let b : Bundle := ⟨["\"\\\n\x00", "😀"], [.bare "\x7b\"key\":\"a\"\x7d", .commented "" ["", "\t/*"]]⟩
    let m : Manifest := [("a", b), ("a/b", .empty)]
    Table.Sorted m ∧ (Json.read (BundleFile.mk b "a").toJson.pretty.toList).bind BundleFile.ofJson = some ⟨b, "a"⟩ ∧
      (Json.read m.toJson.pretty.toList).bind Manifest.ofJson = some m := by
  intro b m
  have hsorted : Table.Sorted m := List.pairwise_pair.2 (by decide)
  obtain ⟨hfile, hmanifest, -⟩ := metadata_read_back ⟨b, "a"⟩ m hsorted
  exact ⟨hsorted, hfile, hmanifest⟩

end Translate
end Localizer
