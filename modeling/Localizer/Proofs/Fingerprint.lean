import Localizer.Proofs.Pieces
import Localizer.Bundle.Manifest
/-!
# Fingerprint — what the hash of a manifest tells apart

A manifest is hashed as one stream: each path, its keys and its messages, every text with a zero behind it.  The stream
shows where texts end, but not where the keys of a path end and its messages begin, or where the next path begins; and a
zero inside a text looks like an end.  `Manifest.hash_eq_iff` says which manifests have the same stream and so the same
hash, and that the contents are told apart if the texts hold no zeros and the numbers of keys and messages agree.
-/
namespace Localizer
namespace Manifest

/-- **What stands in a manifest**: for each path the names of its keys, and its messages. -/
def contents (m : Manifest) : List (String × List String × List String) :=
  m.map fun p => (p.1, p.2.keys.map Key.name, p.2.messages)

/-- **All texts of a manifest** in the order of the stream. -/
def texts (m : Manifest) : List String := m.contents.flatMap fun p => p.1 :: (p.2.1 ++ p.2.2)

/-- **How many keys and messages each path has.** -/
def shape (m : Manifest) : List (Nat × Nat) := m.contents.map fun p => (p.2.1.length, p.2.2.length)

/-- **The end of a text in the stream.** -/
def mark : Char := Char.ofNat 0

/-- **What the stream shows of a manifest**: its texts, cut at the zeros inside them. -/
def shown (m : Manifest) : List (List Char) := m.texts.flatMap fun s => Text.pieces mark s.toList

/-! ## The stream as characters -/

/-- **The stream before it is made bytes.** -/
def characters (m : Manifest) : List Char := m.texts.flatMap fun s => s.toList ++ [mark]

theorem toList_loop (bytes : ByteArray) (i : Nat) (done : List UInt8) :
    ByteArray.toList.loop bytes i done = done.reverse ++ bytes.data.toList.drop i := by
  fun_induction ByteArray.toList.loop bytes i done with
  | case1 i done hi ih =>
    have hlt : i < bytes.data.toList.length := hi
    have hget : bytes.get! i = bytes.data.toList[i] := by
      simp [ByteArray.get!, getElem!_pos bytes.data i hi]
    rw [ih, List.drop_eq_getElem_cons hlt, hget]
    simp
  | case2 i done hi =>
    rw [List.drop_eq_nil_of_le (Nat.le_of_not_lt hi), List.append_nil]

theorem toList_eq_data (bytes : ByteArray) : bytes.toList = bytes.data.toList := by
  unfold ByteArray.toList
  rw [toList_loop, List.reverse_nil, List.nil_append, List.drop_zero]

theorem toUTF8_append (a b : List Char) :
    (String.ofList (a ++ b)).toUTF8.toList = (String.ofList a).toUTF8.toList ++ (String.ofList b).toUTF8.toList := by
  simp [toList_eq_data]

theorem field_eq (s : String) : field s = (String.ofList (s.toList ++ [mark])).toUTF8.toList := by
  have hmark : (String.ofList [mark]).toUTF8.toList = [0] := by
    rw [toList_eq_data]
    decide
  rw [toUTF8_append, hmark, String.ofList_toList]
  rfl

/-- **The stream of texts.** -/
theorem flatMap_field (ss : List String) :
    ss.flatMap field = (String.ofList (ss.flatMap fun s => s.toList ++ [mark])).toUTF8.toList := by
  induction ss with
  | nil => simp
  | cons s ss ih => rw [List.flatMap_cons, List.flatMap_cons, toUTF8_append, ih, field_eq]

theorem stream_eq (m : Manifest) : m.stream = (String.ofList m.characters).toUTF8.toList := by
  unfold characters
  rw [← flatMap_field, texts, contents, List.flatMap_map, List.flatMap_assoc]
  unfold stream
  refine congrArg (fun f => List.flatMap f m) (funext fun p => ?_)
  simp [List.flatMap_map]

theorem stream_inj (m n : Manifest) : m.stream = n.stream ↔ m.characters = n.characters := by
  rw [stream_eq, stream_eq, toList_eq_data, toList_eq_data, Array.toList_inj, ← ByteArray.ext_iff,
    String.toUTF8_eq_toByteArray, String.toUTF8_eq_toByteArray, String.toByteArray_inj, String.ofList_inj]

/-! ## What the stream shows -/

theorem pieces_characters (m : Manifest) : Text.pieces mark m.characters = m.shown ++ [[]] := by
  unfold characters shown
  induction m.texts with
  | nil => rfl
  | cons s ss ih =>
    rw [List.flatMap_cons, List.flatMap_cons, List.append_assoc, List.singleton_append, Text.pieces_part, ih,
      List.append_assoc]

theorem stream_eq_iff (m n : Manifest) : m.stream = n.stream ↔ m.shown = n.shown := by
  rw [stream_inj]
  constructor
  · intro h
    have hpieces := congrArg (Text.pieces mark) h
    rw [pieces_characters, pieces_characters] at hpieces
    exact List.append_cancel_right hpieces
  · intro h
    rw [← Text.joined_pieces mark m.characters, ← Text.joined_pieces mark n.characters, pieces_characters,
      pieces_characters, h]

/-- **Texts without zeros are shown as they are.** -/
theorem shown_plain {m : Manifest} (h : ∀ s ∈ m.texts, mark ∉ s.toList) : m.shown = m.texts.map String.toList := by
  unfold shown
  rw [List.map_eq_flatMap, List.flatMap_def, List.flatMap_def, List.map_congr_left fun s hs => ?_]
  refine Text.pieces_plain fun c hc => ?_
  rintro rfl
  exact h s hs hc

/-- **Texts and their numbers make up the contents.** -/
theorem contents_inj : ∀ {a b : List (String × List String × List String)},
    (a.flatMap fun p => p.1 :: (p.2.1 ++ p.2.2)) = (b.flatMap fun p => p.1 :: (p.2.1 ++ p.2.2)) →
    (a.map fun p => (p.2.1.length, p.2.2.length)) = (b.map fun p => (p.2.1.length, p.2.2.length)) → a = b
  | [], [], _, _ => rfl
  | [], _ :: _, _, hshape => by simp at hshape
  | _ :: _, [], _, hshape => by simp at hshape
  | (path, keys, messages) :: a, (path', keys', messages') :: b, htexts, hshape => by
    simp only [List.map_cons, List.cons.injEq, Prod.mk.injEq] at hshape
    obtain ⟨⟨hkeys, hmessages⟩, hrest⟩ := hshape
    simp only [List.flatMap_cons, List.cons_append, List.append_assoc, List.cons.injEq] at htexts
    obtain ⟨rfl, htexts⟩ := htexts
    obtain ⟨rfl, hbehind⟩ := List.append_inj htexts hkeys
    obtain ⟨rfl, hothers⟩ := List.append_inj hbehind hmessages
    rw [contents_inj hothers hrest]

theorem shown_eq_iff {m n : Manifest} (hm : ∀ s ∈ m.texts, mark ∉ s.toList) (hn : ∀ s ∈ n.texts, mark ∉ s.toList)
    (hshape : m.shape = n.shape) : m.shown = n.shown ↔ m.contents = n.contents := by
  rw [shown_plain hm, shown_plain hn, List.map_inj_right fun _ _ => String.toList_inj.1]
  exact ⟨fun htexts => contents_inj htexts hshape, fun h => by rw [texts, texts, h]⟩

/-- **Which manifests have the same hash.**  As long as the hash has no collision between the two streams, the headers of
two manifests carry the same hash exactly if the streams show the same: the same texts in the same order, a text with
zeros inside counting as several.  This tells the contents apart where no text holds a zero and each path has as many
keys and messages in both. -/
theorem hash_eq_iff (m n : Manifest) (id outDir : String)
    (hsafe : Sha256.hexHash m.stream = Sha256.hexHash n.stream → m.stream = n.stream) :
    ((m.header id outDir).hash = (n.header id outDir).hash ↔ m.shown = n.shown) ∧
      ((∀ s ∈ m.texts, mark ∉ s.toList) → (∀ s ∈ n.texts, mark ∉ s.toList) → m.shape = n.shape →
        ((m.header id outDir).hash = (n.header id outDir).hash ↔ m.contents = n.contents)) := by
  have hstream : (m.header id outDir).hash = (n.header id outDir).hash ↔ m.stream = n.stream :=
    ⟨hsafe, congrArg Sha256.hexHash⟩
  rw [hstream, stream_eq_iff]
  exact ⟨Iff.rfl, shown_eq_iff⟩

/-- A script with one message, and three scripts without messages: different contents with the same hash. -/
theorem hash_eq_iff_collapsed :
    let m : Manifest := [("a", ⟨["c"], [.bare "b"]⟩)]
    let n : Manifest := [("a", .empty), ("b", .empty), ("c", .empty)]
    m.contents ≠ n.contents ∧ m.stream = n.stream ∧ (m.header "x" "out").hash = (n.header "x" "out").hash := by
  intro m n
  have hshown : m.shown = n.shown := by decide
  have hstream : m.stream = n.stream := (stream_eq_iff m n).2 hshown
  exact ⟨by decide, hstream, (hash_eq_iff m n "x" "out" fun _ => hstream).1.2 hshown⟩

end Manifest
end Localizer
