import Localizer.Proofs.Failures
import Localizer.Proofs.Records
import Localizer.Proofs.Requests
/-!
# Schedule — in which order scripts are treated

In place each script gives texts for its folder and perhaps a bundle, and what it gives can be told from the tree before
the run (`Process.yieldOf`): treating scripts in some order writes what they give in that order
(`Process.Scene.doing_processFiles_yield`).  Scripts whose names differ only in the extension give texts for the same
places, so the order is of no account exactly if no two of them clash (`Process.any_order_iff`).
-/
namespace Localizer
namespace Process

open FileTree (pathBelow doing_bind)

variable {s : Settings} {tree now : FileTree} {r dir dir' : Place} {name name' file : String} {files : List String}
  {w v : Extracted} {written : Place → Prop}

/-! ## What a script gives -/

/-- **What a script gives**: texts for places, and its messages if all of them get there. -/
structure Yield where
  texts : List (Place × List Char)
  bundle : Option BundleFile

/-- **The names of a script below the folder of the run.** -/
def namesOf (s : Settings) (file : String) : Place := Path.segments (Path.relativeTo s.root file)

/-- **What a script gives**, as it stands in a tree. -/
def yieldOf (s : Settings) (tree : FileTree) (r : Place) (file : String) : Yield :=
  match extraction s tree file with
  | .ok (.extracted w) =>
    let dir := (namesOf s file).dropLast
    let texts := placed r dir (textsOf s dir ((namesOf s file).getLastD "") w)
    ⟨tree.admitted texts, (verdict tree texts).toOption.map fun _ => bundleOf s file w⟩
  | _ => ⟨[], none⟩

theorem Regular.yieldOf_extracted (h : Regular tree r dir name) (hroot : s.root ≠ "")
    (hextract : extraction s tree (pathBelow s.root (dir ++ [name])) = .ok (.extracted w)) :
    yieldOf s tree r (pathBelow s.root (dir ++ [name])) = ⟨tree.admitted (placed r dir (textsOf s dir name w)),
      (verdict tree (placed r dir (textsOf s dir name w))).toOption.map fun _ =>
        bundleOf s (pathBelow s.root (dir ++ [name])) w⟩ := by
  have hnames : namesOf s (pathBelow s.root (dir ++ [name])) = dir ++ [name] := by
    rw [namesOf, Path.relativeTo_pathBelow hroot (by simp) h.proper h.plain,
      Path.segments_joinSegments (by simp) fun n hn => (h.proper n hn).2.2]
  simp only [yieldOf, hextract, hnames, List.dropLast_concat, List.getLastD_concat]

theorem yieldOf_left (hleft : ∀ w, extraction s tree file ≠ .ok (.extracted w)) : yieldOf s tree r file = ⟨[], none⟩ := by
  rw [yieldOf]
  split
  · exact absurd ‹_› (hleft _)
  · rfl

theorem Regular.mem_yield (h : Regular tree r dir name) (hroot : s.root ≠ "") {x : Place × List Char} :
    x ∈ (yieldOf s tree r (pathBelow s.root (dir ++ [name]))).texts ↔
      ∃ w, extraction s tree (pathBelow s.root (dir ++ [name])) = .ok (.extracted w) ∧
        x ∈ tree.admitted (placed r dir (textsOf s dir name w)) := by
  by_cases hex : ∃ w, extraction s tree (pathBelow s.root (dir ++ [name])) = .ok (.extracted w)
  · obtain ⟨w, hw⟩ := hex
    rw [h.yieldOf_extracted hroot hw]
    constructor
    · exact fun hx => ⟨w, hw, hx⟩
    · rintro ⟨w', hw', hx⟩
      obtain rfl : w = w' := by simpa using hw.symm.trans hw'
      exact hx
  · rw [yieldOf_left fun w hw => hex ⟨w, hw⟩]
    constructor
    · exact fun hx => absurd hx List.not_mem_nil
    · exact fun ⟨w, hw, _⟩ => absurd ⟨w, hw⟩ hex

/-- **Texts are given for places of the script's own**, where no folder and no link stands. -/
theorem Regular.free_yield (h : Regular tree r dir name) (hroot : s.root ≠ "") {x : Place × List Char}
    (hx : x ∈ (yieldOf s tree r (pathBelow s.root (dir ++ [name]))).texts) :
    x.1 ≠ [] ∧ tree.Free x.1 ∧ Output r dir name x.1 := by
  obtain ⟨w, -, hx⟩ := (h.mem_yield hroot).1 hx
  exact h.free_texts hx

/-- **A bundle is given if all texts get to their places.** -/
theorem Regular.bundle_yield (h : Regular tree r dir name) (hroot : s.root ≠ "") {b : BundleFile}
    (hb : (yieldOf s tree r (pathBelow s.root (dir ++ [name]))).bundle = some b) :
    ∃ w, extraction s tree (pathBelow s.root (dir ++ [name])) = .ok (.extracted w) ∧
      verdict tree (placed r dir (textsOf s dir name w)) = .ok () ∧
      b = bundleOf s (pathBelow s.root (dir ++ [name])) w := by
  by_cases hex : ∃ w, extraction s tree (pathBelow s.root (dir ++ [name])) = .ok (.extracted w)
  · obtain ⟨w, hw⟩ := hex
    rw [h.yieldOf_extracted hroot hw] at hb
    refine ⟨w, hw, ?_⟩
    cases hverdict : verdict tree (placed r dir (textsOf s dir name w)) with
    | error failure =>
      rw [hverdict] at hb
      cases hb
    | ok =>
      rw [hverdict] at hb
      exact ⟨rfl, (Option.some.inj hb).symm⟩
  · rw [yieldOf_left fun w hw => hex ⟨w, hw⟩] at hb
    cases hb

/-! ## One script and then all -/

/-- **Treating a script writes what it gives**, if neither the script nor its map was written before. -/
theorem Scene.doing_processFile_yield (hs : Scene s tree r) (h : Regular tree r dir name)
    (hnow : FileTree.Amended written tree now) (hscript : ¬written (r ++ (dir ++ [name])))
    (hmap : ¬written (r ++ (dir ++ [name ++ ".map"]))) :
    ∃ outcome, now.doing (processFile s (pathBelow s.root (dir ++ [name]))) =
        (outcome, now.store (yieldOf s tree r (pathBelow s.root (dir ++ [name]))).texts) ∧
      outcome.bundle = (yieldOf s tree r (pathBelow s.root (dir ++ [name]))).bundle := by
  have hs' := hs.mono hnow.keeps
  have h' := h.mono hnow
  have hsame := hs.extraction_congr h hs' h' (hnow.at?_eq hscript) (hnow.at?_eq hmap)
  by_cases hex : ∃ w, extraction s tree (pathBelow s.root (dir ++ [name])) = .ok (.extracted w)
  · obtain ⟨w, hw⟩ := hex
    have hdone := hs'.doing_processFile_texts h' (hsame.trans hw)
    rw [verdict_congr hnow, hnow.admitted_eq] at hdone
    rw [h.yieldOf_extracted hs.root.1 hw]
    refine ⟨_, hdone, ?_⟩
    cases verdict tree (placed r dir (textsOf s dir name w)) <;> rfl
  · have hleft : ∀ w, extraction s tree (pathBelow s.root (dir ++ [name])) ≠ .ok (.extracted w) :=
      fun w hw => hex ⟨w, hw⟩
    obtain ⟨result, hresult, hnone⟩ := doing_treat_left hs.inPlace fun w hw => hleft w (hsame.symm.trans hw)
    rw [yieldOf_left hleft]
    exact ⟨_, Process.doing_processFile hresult, hnone⟩

/-- **Treating scripts writes what they give**, in their order. -/
theorem Scene.doing_processFiles_yield (hs : Scene s tree r) (hnodup : files.Nodup)
    (hfiles : ∀ file ∈ files, ∃ dir name, file = pathBelow s.root (dir ++ [name]) ∧ Regular tree r dir name)
    (hnow : FileTree.Amended written tree now)
    (hwritten : ∀ dir name, pathBelow s.root (dir ++ [name]) ∈ files → Regular tree r dir name →
      ¬written (r ++ (dir ++ [name])) ∧ ¬written (r ++ (dir ++ [name ++ ".map"]))) :
    ∃ outcomes, now.doing (processFiles s files) =
        (outcomes, now.store (files.flatMap fun file => (yieldOf s tree r file).texts)) ∧
      outcomes.map (·.bundle) = files.map fun file => (yieldOf s tree r file).bundle := by
  induction files generalizing now written with
  | nil => exact ⟨[], rfl, rfl⟩
  | cons file files ih =>
    obtain ⟨hnotin, hdistinct⟩ := List.nodup_cons.1 hnodup
    obtain ⟨dir, name, rfl, h⟩ := hfiles file (List.mem_cons_self ..)
    obtain ⟨hscript, hmap⟩ := hwritten dir name (List.mem_cons_self ..) h
    obtain ⟨outcome, hfirst, hbundle⟩ := hs.doing_processFile_yield h hnow hscript hmap
    have hmid : FileTree.Amended (Output r dir name) now
        (now.store (yieldOf s tree r (pathBelow s.root (dir ++ [name]))).texts) := by
      refine (FileTree.amended_store fun x hx => ?_).weaken ?_
      · obtain ⟨hne, hfree, -⟩ := h.free_yield hs.root.1 hx
        exact ⟨hne, (hnow.free_iff _).2 hfree⟩
      · rintro p ⟨x, hx, rfl⟩
        exact (h.free_yield hs.root.1 hx).2.2
    obtain ⟨outcomes, hrest, hbundles⟩ := ih hdistinct (fun f hf => hfiles f (List.mem_cons_of_mem _ hf)) (hnow.trans hmid)
      fun dir' name' hmem h' => by
        have hbefore := hwritten dir' name' (List.mem_cons_of_mem _ hmem) h'
        have hapart := h'.apart h fun hsame => hnotin (hsame ▸ hmem)
        exact ⟨fun hw => hw.elim hbefore.1 hapart.1, fun hw => hw.elim hbefore.2 hapart.2⟩
    refine ⟨outcome :: outcomes, ?_, by rw [List.map_cons, List.map_cons, hbundle, hbundles]⟩
    rw [processFiles, doing_bind hfirst, doing_bind hrest, List.flatMap_cons, FileTree.store_append]
    rfl

/-! ## Places that scripts share -/

/-- **The text of a script's messages.** -/
def messagesText (w : Extracted) : List Char := (Json.ofStrings w.bundle.messages).compact.toList

/-- **The text of a script's messages with their keys.** -/
def bundleText (s : Settings) (file : String) (w : Extracted) : List Char := (bundleOf s file w).toJson.pretty.toList

theorem messagesText_inj (h : messagesText w = messagesText v) : w.bundle.messages = v.bundle.messages := by
  have hread : ∀ u : Extracted, (Json.read (messagesText u)).bind (Json.list? Json.string?) = some u.bundle.messages := by
    intro u
    have hspelled : Json.Spelled Json.depthLimit (Json.ofStrings u.bundle.messages)
        (Json.compactChars (Json.ofStrings u.bundle.messages)) := by
      refine Json.spelled_compact_array fun value hvalue => ?_
      obtain ⟨m, -, rfl⟩ := List.mem_map.1 hvalue
      exact Json.spelled_string m
    rw [messagesText, Json.compact, String.toList_ofList, Json.read_of_spelled hspelled, Option.bind_some,
      Json.list?_ofStrings]
  have hsame := hread w
  rw [h, hread v] at hsame
  exact (Option.some.inj hsame).symm

theorem bundleText_inj {file' : String} (h : bundleText s file w = bundleText s file' v) : w.bundle = v.bundle := by
  have hsame := (bundleOf s file w).read_pretty
  rw [← bundleText, h, bundleText, (bundleOf s file' v).read_pretty] at hsame
  exact (congrArg BundleFile.bundle (Option.some.inj hsame)).symm

theorem messages_ne_bundle (a b : String) : a ++ ".nls.json" ≠ b ++ bundleSuffix := by
  intro h
  have hchar := congrArg (fun t : String => t.toList.reverse[5]?) h
  simp [bundleSuffix] at hchar

theorem map_ne_side (a b : String) : a ++ ".map" ≠ b ++ ".nls.json" ∧ a ++ ".map" ≠ b ++ bundleSuffix := by
  constructor
  · intro h
    have hlast := congrArg (fun t : String => t.toList.getLast?) h
    simp at hlast
  · intro h
    have hlast := congrArg (fun t : String => t.toList.getLast?) h
    simp [bundleSuffix] at hlast

theorem nodup_names (hend : name.toList.getLast? = some 's' ∨ name.toList.getLast? = some 'x') (mapped : Bool) :
    (name :: sideNames name mapped).Nodup := by
  have hpair : [(Path.splitName name).1 ++ ".nls.json", (Path.splitName name).1 ++ bundleSuffix].Nodup :=
    List.nodup_cons.2 ⟨fun h => messages_ne_bundle _ _ (List.mem_singleton.1 h), List.nodup_singleton _⟩
  refine List.nodup_cons.2 ⟨fun hmem => ne_sideNames hend (mem_sideNames hmem) rfl, ?_⟩
  cases mapped with
  | true =>
    refine List.nodup_cons.2 ⟨fun hmem => ?_, hpair⟩
    rcases List.mem_cons.1 hmem with hmem | hmem
    · exact (map_ne_side _ _).1 hmem
    · exact (map_ne_side _ _).2 (List.mem_singleton.1 hmem)
  | false => exact hpair

theorem names_textsOf (s : Settings) (dir : Place) (name : String) (w : Extracted) :
    (textsOf s dir name w).map (·.1) = name :: sideNames name w.sourceMap.isSome := by
  rw [textsOf, List.map_cons, map_sidesOf]

/-- **The texts that are written before a script's messages.** -/
def firstTexts (name : String) (w : Extracted) : List (String × List Char) :=
  (name, w.contents) :: (w.sourceMap.map fun t => (name ++ ".map", t.toList)).toList

theorem textsOf_eq (s : Settings) (dir : Place) (name : String) (w : Extracted) :
    textsOf s dir name w = firstTexts name w ++ ((Path.splitName name).1 ++ ".nls.json", messagesText w) ::
      [((Path.splitName name).1 ++ bundleSuffix, bundleText s (pathBelow s.root (dir ++ [name])) w)] := rfl

/-- **No folder stands in the way of a script's messages**: not in their place, and not in that of its map. -/
def Clear (tree : FileTree) (r dir : Place) (name : String) (w : Extracted) : Prop :=
  (w.sourceMap.isSome = true → tree.at? (r ++ (dir ++ [name ++ ".map"])) ≠ some .folder) ∧
    tree.at? (r ++ (dir ++ [(Path.splitName name).1 ++ ".nls.json"])) ≠ some .folder

theorem Regular.not_mem_placed (h : Regular tree r dir name) {front back : List (String × List Char)}
    {x : String × List Char} (hsplit : textsOf s dir name w = front ++ x :: back) :
    (r ++ (dir ++ [x.1]), x.2) ∉ placed r dir front := by
  intro hmem
  obtain ⟨y, hy, heq⟩ := List.mem_map.1 hmem
  have hname : y.1 = x.1 := by simpa using congrArg Prod.fst heq
  have hnodup := nodup_names h.ending w.sourceMap.isSome
  rw [← names_textsOf s dir, hsplit, List.map_append, List.map_cons, List.nodup_append] at hnodup
  exact hnodup.2.2 _ (List.mem_map_of_mem hy) _ (List.mem_cons_self ..) hname

theorem Regular.clear_first (h : Regular tree r dir name) :
    (∀ x ∈ placed r dir (firstTexts name w ++ [((Path.splitName name).1 ++ ".nls.json", messagesText w)]),
      tree.at? x.1 ≠ some .folder) ↔ Clear tree r dir name w := by
  obtain ⟨contents, hcontents⟩ := h.file
  cases hmap : w.sourceMap <;> simp [placed, firstTexts, Clear, hmap, hcontents]

/-- **Messages get to their place** exactly if nothing is in the way. -/
theorem Regular.mem_messages (h : Regular tree r dir name) :
    (r ++ (dir ++ [(Path.splitName name).1 ++ ".nls.json"]), messagesText w) ∈
      tree.admitted (placed r dir (textsOf s dir name w)) ↔ Clear tree r dir name w := by
  have hfront := h.not_mem_placed (textsOf_eq s dir name w)
  dsimp only at hfront
  rw [textsOf_eq, placed_append, placed_cons, FileTree.mem_admitted_iff hfront, ← h.clear_first, placed_append,
    placed_cons, placed_nil]

/-- **Messages with their keys get to their place** exactly if all texts do. -/
theorem Regular.mem_bundle (h : Regular tree r dir name) :
    (r ++ (dir ++ [(Path.splitName name).1 ++ bundleSuffix]), bundleText s (pathBelow s.root (dir ++ [name])) w) ∈
      tree.admitted (placed r dir (textsOf s dir name w)) ↔
      verdict tree (placed r dir (textsOf s dir name w)) = .ok () := by
  have hsplit : textsOf s dir name w = (firstTexts name w ++ [((Path.splitName name).1 ++ ".nls.json", messagesText w)]) ++
      ((Path.splitName name).1 ++ bundleSuffix, bundleText s (pathBelow s.root (dir ++ [name])) w) :: [] := by
    rw [textsOf_eq, List.append_cons]
  have hfront := h.not_mem_placed hsplit
  dsimp only at hfront
  rw [verdict_eq_ok_iff, hsplit, placed_append, placed_cons, FileTree.mem_admitted_iff hfront, placed_nil]

theorem Regular.verdict_iff (h : Regular tree r dir name) :
    verdict tree (placed r dir (textsOf s dir name w)) = .ok () ↔
      Clear tree r dir name w ∧ tree.at? (r ++ (dir ++ [(Path.splitName name).1 ++ bundleSuffix])) ≠ some .folder := by
  rw [verdict_eq_ok_iff, textsOf_eq, List.append_cons, placed, List.map_append, List.forall_mem_append, ← h.clear_first,
    placed]
  simp

theorem mem_textsOf_cases {x : String × List Char} (hx : x ∈ textsOf s dir name w) :
    x.1 = name ∨ x.1 = name ++ ".map" ∨ x = ((Path.splitName name).1 ++ ".nls.json", messagesText w) ∨
      x = ((Path.splitName name).1 ++ bundleSuffix, bundleText s (pathBelow s.root (dir ++ [name])) w) := by
  rw [textsOf_eq, firstTexts] at hx
  cases hmap : w.sourceMap <;> rw [hmap] at hx <;> simp at hx
  · rcases hx with rfl | rfl | rfl <;> simp
  · rcases hx with rfl | rfl | rfl | rfl <;> simp

/-- **Two scripts share places for messages only**, and only if their names differ in the extension. -/
theorem Regular.shared (h : Regular tree r dir name) (h' : Regular tree r dir' name')
    (hne : dir ++ [name] ≠ dir' ++ [name']) {x y : String × List Char} (hx : x ∈ textsOf s dir name w)
    (hy : y ∈ textsOf s dir' name' v) (hxy : r ++ (dir ++ [x.1]) = r ++ (dir' ++ [y.1])) :
    dir = dir' ∧ (Path.splitName name).1 = (Path.splitName name').1 ∧
      (x = ((Path.splitName name).1 ++ ".nls.json", messagesText w) ∧
          y = ((Path.splitName name').1 ++ ".nls.json", messagesText v) ∨
        x = ((Path.splitName name).1 ++ bundleSuffix, bundleText s (pathBelow s.root (dir ++ [name])) w) ∧
          y = ((Path.splitName name').1 ++ bundleSuffix, bundleText s (pathBelow s.root (dir' ++ [name'])) v)) := by
  -- neither is a script or its map
  have hout : Output r dir' name' (r ++ (dir ++ [x.1])) := ⟨y.1, mem_textsOf hy, hxy⟩
  have hout' : Output r dir name (r ++ (dir' ++ [y.1])) := ⟨x.1, mem_textsOf hx, hxy.symm⟩
  obtain ⟨hscript, hmap⟩ := h.apart h' hne
  obtain ⟨hscript', hmap'⟩ := h'.apart h hne.symm
  obtain ⟨rfl, hname⟩ := List.append_inj' (List.append_cancel_left hxy) rfl
  have hname : x.1 = y.1 := by simpa using hname
  rcases mem_textsOf_cases hx with hx | hx | rfl | rfl
  · exact absurd (hx ▸ hout) hscript
  · exact absurd (hx ▸ hout) hmap
  · rcases mem_textsOf_cases hy with hy | hy | rfl | rfl
    · exact absurd (hy ▸ hout') hscript'
    · exact absurd (hy ▸ hout') hmap'
    · exact ⟨rfl, (String.append_left_inj ".nls.json").1 hname, .inl ⟨rfl, rfl⟩⟩
    · exact absurd hname (messages_ne_bundle (Path.splitName name).1 (Path.splitName name').1)
  · rcases mem_textsOf_cases hy with hy | hy | rfl | rfl
    · exact absurd (hy ▸ hout') hscript'
    · exact absurd (hy ▸ hout') hmap'
    · exact absurd hname.symm (messages_ne_bundle (Path.splitName name').1 (Path.splitName name).1)
    · exact ⟨rfl, (String.append_left_inj bundleSuffix).1 hname, .inr ⟨rfl, rfl⟩⟩

/-! ## Clashes -/

/-- **No folder stands in the way of a script's messages**, told by paths. -/
def MessagesWritten (s : Settings) (tree : FileTree) (file : String) (w : Extracted) : Prop :=
  (w.sourceMap.isSome = true → tree.kind? (targetOf s file ++ ".map") ≠ some .folder) ∧
    tree.kind? (Path.withoutExtension (targetOf s file) ++ ".nls.json") ≠ some .folder

/-- **Two scripts clash** if their paths differ only in the extension, both have messages to write in the same place, and
what they would write there or in that of the messages with their keys differs. -/
def Clash (s : Settings) (tree : FileTree) (f g : String) : Prop :=
  ∃ w v, extraction s tree f = .ok (.extracted w) ∧ extraction s tree g = .ok (.extracted v) ∧
    Path.withoutExtension (targetOf s f) = Path.withoutExtension (targetOf s g) ∧
    MessagesWritten s tree f w ∧ MessagesWritten s tree g v ∧
    (w.bundle.messages ≠ v.bundle.messages ∨
      tree.kind? (Path.withoutExtension (targetOf s f) ++ bundleSuffix) ≠ some .folder ∧ w.bundle ≠ v.bundle)

theorem Clash.ne {f g : String} (h : Clash s tree f g) : f ≠ g := by
  rintro rfl
  obtain ⟨w, v, hw, hv, -, -, -, hdiffer⟩ := h
  obtain rfl : w = v := by simpa using hw.symm.trans hv
  exact hdiffer.elim (fun hne => hne rfl) fun hne => hne.2 rfl

theorem Scene.messagesWritten_iff (hs : Scene s tree r) (h : Regular tree r dir name) :
    MessagesWritten s tree (pathBelow s.root (dir ++ [name])) w ↔ Clear tree r dir name w := by
  have htarget := targetOf_pathBelow hs.root.1 h.proper h.plain
  obtain ⟨hmap, hmessages, -⟩ := sidePath_eq hs.output.1 h.proper
  rw [MessagesWritten, Clear, htarget, hmap, hmessages, Ne, Ne, hs.kind?_side h (by simp [sideNames]),
    hs.kind?_side h (by simp [sideNames])]

theorem Scene.kind?_bundle (hs : Scene s tree r) (h : Regular tree r dir name) :
    tree.kind? (Path.withoutExtension (targetOf s (pathBelow s.root (dir ++ [name]))) ++ bundleSuffix) = some .folder ↔
      tree.at? (r ++ (dir ++ [(Path.splitName name).1 ++ bundleSuffix])) = some .folder := by
  rw [targetOf_pathBelow hs.root.1 h.proper h.plain, (sidePath_eq hs.output.1 h.proper).2.2,
    hs.kind?_side h (by simp [sideNames])]

/-- **Paths that differ only in the extension.** -/
theorem Scene.withoutExtension_eq_iff (hs : Scene s tree r) (h : Regular tree r dir name)
    (h' : Regular tree r dir' name') :
    Path.withoutExtension (targetOf s (pathBelow s.root (dir ++ [name]))) =
        Path.withoutExtension (targetOf s (pathBelow s.root (dir' ++ [name']))) ↔
      dir = dir' ∧ (Path.splitName name).1 = (Path.splitName name').1 := by
  rw [targetOf_pathBelow hs.root.1 h.proper h.plain, targetOf_pathBelow hs.root.1 h'.proper h'.plain,
    ← String.append_left_inj ".nls.json", (sidePath_eq hs.output.1 h.proper).2.1, (sidePath_eq hs.output.1 h'.proper).2.1]
  constructor
  · intro heq
    have hnames := Path.pathBelow_inj hs.output.1 (by simp) (proper_side h.proper (by simp [sideNames])) (by simp)
      (proper_side h'.proper (by simp [sideNames])) heq
    obtain ⟨hdir, hlast⟩ := List.append_inj' hnames rfl
    exact ⟨hdir, (String.append_left_inj _).1 (List.cons.inj hlast).1⟩
  · rintro ⟨rfl, hstem⟩
    rw [hstem]

theorem stripExtension_append {path ending : String} (hpoint : '.' ∉ ending.toList) (hslash : '/' ∉ ending.toList) :
    stripExtension (path ++ ("." ++ ending)) = path := by
  have hplain : ∀ c ∈ ending.toList.reverse, (c != '.' && c != '/') = true := by
    intro c hc
    rw [List.mem_reverse] at hc
    have hc1 : c ≠ '.' := fun heq => hpoint (heq ▸ hc)
    have hc2 : c ≠ '/' := fun heq => hslash (heq ▸ hc)
    simp [hc1, hc2]
  have hchars : (path ++ ("." ++ ending)).toList.reverse = ending.toList.reverse ++ '.' :: path.toList.reverse := by simp
  rw [stripExtension, hchars, List.dropWhile_append_of_pos hplain, List.dropWhile_cons_of_neg (by decide)]
  simp only
  rw [List.reverse_reverse, String.ofList_toList]

/-- **The path of a script's messages** is its path without the extension. -/
theorem Regular.bundle_path (h : Regular tree r dir name) (hroot : s.root ≠ "")
    (hscript : isScript (pathBelow s.root (dir ++ [name])) = true) :
    (bundleOf s (pathBelow s.root (dir ++ [name])) w).path = Path.joinSegments (dir ++ [(Path.splitName name).1]) := by
  obtain ⟨stem, ending, hsplit, hname, hending⟩ := splitName_of_isScript hroot h.proper hscript
  have hplain : ∀ e ∈ ["js", "mjs", "cjs", "jsx", "ts", "mts", "cts", "tsx"], '.' ∉ e.toList ∧ '/' ∉ e.toList := by decide
  rw [bundleOf, Path.relativeTo_pathBelow hroot (by simp) h.proper h.plain, hsplit]
  have hjoin : Path.joinSegments (dir ++ [name]) = Path.joinSegments (dir ++ [stem]) ++ ("." ++ ending) := by
    rw [Path.joinSegments_concat, hname, String.append_assoc]
  rw [hjoin]
  exact stripExtension_append (hplain ending hending).1 (hplain ending hending).2

theorem bundleOf_congr {file' : String} (hpath : (bundleOf s file w).path = (bundleOf s file' v).path)
    (hbundle : w.bundle = v.bundle) : bundleOf s file w = bundleOf s file' v := by
  unfold bundleOf at hpath ⊢
  dsimp only at hpath
  rw [hpath, hbundle]

/-- **Without a clash two scripts give the same text for a place.** -/
theorem Scene.agree (hs : Scene s tree r) (h : Regular tree r dir name) (h' : Regular tree r dir' name')
    (hscript : isScript (pathBelow s.root (dir ++ [name])) = true)
    (hscript' : isScript (pathBelow s.root (dir' ++ [name'])) = true)
    (hno : ¬Clash s tree (pathBelow s.root (dir ++ [name])) (pathBelow s.root (dir' ++ [name'])))
    {x y : Place × List Char} (hx : x ∈ (yieldOf s tree r (pathBelow s.root (dir ++ [name]))).texts)
    (hy : y ∈ (yieldOf s tree r (pathBelow s.root (dir' ++ [name']))).texts) (hxy : x.1 = y.1) : x.2 = y.2 := by
  obtain ⟨w, hw, hx⟩ := (h.mem_yield hs.root.1).1 hx
  obtain ⟨v, hv, hy⟩ := (h'.mem_yield hs.root.1).1 hy
  obtain ⟨a, ha, rfl⟩ := List.mem_map.1 (FileTree.mem_admitted hx).1
  obtain ⟨b, hb, rfl⟩ := List.mem_map.1 (FileTree.mem_admitted hy).1
  by_cases hsame : dir ++ [name] = dir' ++ [name']
  · obtain ⟨rfl, hname⟩ := List.append_inj' hsame rfl
    obtain rfl : name = name' := by simpa using hname
    obtain rfl : w = v := by simpa using hw.symm.trans hv
    have hnodup := nodup_names h.ending w.sourceMap.isSome
    rw [← names_textsOf s dir] at hnodup
    have hfirst : a.1 = b.1 := by simpa using hxy
    rw [List.inj_on_of_nodup_map hnodup ha hb hfirst]
  · obtain ⟨rfl, hstem, htexts⟩ := h.shared h' hsame ha hb hxy
    have hpaths := (hs.withoutExtension_eq_iff h h').2 ⟨rfl, hstem⟩
    rcases htexts with ⟨rfl, rfl⟩ | ⟨rfl, rfl⟩
    · dsimp only at hx hy ⊢
      have hmessages : w.bundle.messages = v.bundle.messages := by
        by_contra hne
        exact hno ⟨w, v, hw, hv, hpaths, (hs.messagesWritten_iff h).2 (h.mem_messages.1 hx),
          (hs.messagesWritten_iff h').2 (h'.mem_messages.1 hy), .inl hne⟩
      rw [messagesText, messagesText, hmessages]
    · dsimp only at hx hy ⊢
      obtain ⟨hclear, hbundle⟩ := h.verdict_iff.1 (h.mem_bundle.1 hx)
      obtain ⟨hclear', -⟩ := h'.verdict_iff.1 (h'.mem_bundle.1 hy)
      have hsame : w.bundle = v.bundle := by
        by_contra hne
        exact hno ⟨w, v, hw, hv, hpaths, (hs.messagesWritten_iff h).2 hclear, (hs.messagesWritten_iff h').2 hclear',
          .inr ⟨mt (hs.kind?_bundle h).1 hbundle, hne⟩⟩
      have hpath := h.bundle_path (w := w) hs.root.1 hscript
      rw [hstem, ← h'.bundle_path (w := v) hs.root.1 hscript'] at hpath
      rw [bundleText, bundleText, bundleOf_congr hpath hsame]

/-- **Without a clash two scripts give the same bundle for a path.** -/
theorem Scene.agree_bundle (hs : Scene s tree r) (h : Regular tree r dir name) (h' : Regular tree r dir' name')
    (hscript : isScript (pathBelow s.root (dir ++ [name])) = true)
    (hscript' : isScript (pathBelow s.root (dir' ++ [name'])) = true)
    (hno : ¬Clash s tree (pathBelow s.root (dir ++ [name])) (pathBelow s.root (dir' ++ [name']))) {a b : BundleFile}
    (ha : (yieldOf s tree r (pathBelow s.root (dir ++ [name]))).bundle = some a)
    (hb : (yieldOf s tree r (pathBelow s.root (dir' ++ [name']))).bundle = some b) (hab : a.path = b.path) :
    a.bundle = b.bundle := by
  obtain ⟨w, hw, hok, rfl⟩ := h.bundle_yield hs.root.1 ha
  obtain ⟨v, hv, hok', rfl⟩ := h'.bundle_yield hs.root.1 hb
  obtain ⟨hclear, hbundle⟩ := h.verdict_iff.1 hok
  obtain ⟨hclear', -⟩ := h'.verdict_iff.1 hok'
  -- paths without extension are told apart by their segments
  rw [h.bundle_path hs.root.1 hscript, h'.bundle_path hs.root.1 hscript'] at hab
  have hslash : ∀ {dir name}, Regular tree r dir name → ∀ x ∈ dir ++ [(Path.splitName name).1], '/' ∉ x.toList := by
    intro dir name hc x hx
    rcases List.mem_append.1 hx with hx | hx
    · exact (hc.proper x (List.mem_append_left _ hx)).2.2
    · exact List.mem_singleton.1 hx ▸ Path.slash_not_mem_stem (hc.proper name (by simp)).2.2
  have hnames := congrArg Path.segments hab
  rw [Path.segments_joinSegments (by simp) (hslash h), Path.segments_joinSegments (by simp) (hslash h')] at hnames
  obtain ⟨hdir, hlast⟩ := List.append_inj' hnames rfl
  by_contra hdiffer
  exact hno ⟨w, v, hw, hv, (hs.withoutExtension_eq_iff h h').2 ⟨hdir, (List.cons.inj hlast).1⟩,
    (hs.messagesWritten_iff h).2 hclear, (hs.messagesWritten_iff h').2 hclear',
    .inr ⟨mt (hs.kind?_bundle h).1 hbundle, hdiffer⟩⟩

/-! ## Runs in any order -/

/-- **What a run leaves** if its scripts are treated in this order: the manifest, and the tree after that was written, if
the run has an id for it. -/
def leftBy (s : Settings) (given : Option String) (files : List String) (tree : FileTree) : Manifest × FileTree :=
  let (outcomes, mid) := tree.doing (processFiles s files)
  match given with
  | none => (manifestOf outcomes, mid)
  | some id => (manifestOf outcomes, (mid.doing (writeManifest s id (manifestOf outcomes))).2)

/-- **The scripts of a run in place**, whose paths mean what they say. -/
structure Company (s : Settings) (tree : FileTree) (r : Place) (files : List String) : Prop where
  distinct : files.Nodup
  regular : ∀ file ∈ files, ∃ dir name, file = pathBelow s.root (dir ++ [name]) ∧ Regular tree r dir name
  script : ∀ file ∈ files, isScript file = true
  manifest : ∀ n ∈ [manifestFile, headerFile], ∀ target, tree.at? (r ++ ([] ++ [n])) ≠ some (.link target)

theorem Company.perm {files' : List String} (h : Company s tree r files) (hperm : files'.Perm files) :
    Company s tree r files' where
  distinct := hperm.nodup_iff.2 h.distinct
  regular file hfile := h.regular file (hperm.mem_iff.1 hfile)
  script file hfile := h.script file (hperm.mem_iff.1 hfile)
  manifest := h.manifest

/-- **All texts that scripts give**, in their order. -/
def textsBy (s : Settings) (tree : FileTree) (r : Place) (files : List String) : List (Place × List Char) :=
  files.flatMap fun file => (yieldOf s tree r file).texts

/-- **All bundles that scripts give**, by their paths and in their order. -/
def bundlesBy (s : Settings) (tree : FileTree) (r : Place) (files : List String) : List (String × Bundle) :=
  (files.filterMap fun file => (yieldOf s tree r file).bundle).map fun f => (f.path, f.bundle)

theorem manifestOf_eq {outcomes : List FileOutcome}
    (h : outcomes.map (·.bundle) = files.map fun file => (yieldOf s tree r file).bundle) :
    manifestOf outcomes = Table.sort (bundlesBy s tree r files) := by
  have hbundles : outcomes.filterMap (·.bundle) = files.filterMap fun file => (yieldOf s tree r file).bundle := by
    have hmapped := congrArg (List.filterMap id) h
    rwa [List.filterMap_map, List.filterMap_map] at hmapped
  rw [manifestOf, hbundles, bundlesBy, Table.sort, List.foldl_map]
  rfl

theorem Company.free_texts (h : Company s tree r files) (hs : Scene s tree r) :
    ∀ x ∈ textsBy s tree r files, x.1 ≠ [] ∧ tree.Free x.1 := by
  intro x hx
  obtain ⟨file, hfile, hx⟩ := List.mem_flatMap.1 hx
  obtain ⟨dir, name, rfl, hregular⟩ := h.regular file hfile
  obtain ⟨hne, hfree, -⟩ := hregular.free_yield hs.root.1 hx
  exact ⟨hne, hfree⟩

/-- **A run leaves what its scripts give**, and then the manifest. -/
theorem Company.leftBy_eq (h : Company s tree r files) (hs : Scene s tree r) (given : Option String) :
    leftBy s given files tree = (Table.sort (bundlesBy s tree r files), match given with
      | none => tree.store (textsBy s tree r files)
      | some id => (tree.store (textsBy s tree r files)).store ((tree.store (textsBy s tree r files)).admitted
          (placed r [] (manifestTexts s id (Table.sort (bundlesBy s tree r files)))))) := by
  obtain ⟨outcomes, hdone, hbundles⟩ := hs.doing_processFiles_yield h.distinct h.regular
    (FileTree.Amended.refl (fun _ => False) tree) fun _ _ _ _ => ⟨id, id⟩
  have hamended := FileTree.amended_store (h.free_texts hs)
  rw [leftBy, hdone]
  dsimp only
  rw [manifestOf_eq hbundles]
  cases given with
  | none => rfl
  | some id =>
    have hwritten := (hs.mono hamended.keeps).doing_writeManifest (fun n hn target htarget =>
      h.manifest n hn target ((hamended.link_iff _ _).1 htarget)) id (Table.sort (bundlesBy s tree r files))
    exact congrArg (Prod.mk _) hwritten

theorem Company.agree (h : Company s tree r files) (hs : Scene s tree r)
    (hno : ∀ f ∈ files, ∀ g ∈ files, ¬Clash s tree f g) :
    ∀ x ∈ textsBy s tree r files, ∀ y ∈ textsBy s tree r files, x.1 = y.1 → x.2 = y.2 := by
  intro x hx y hy hxy
  obtain ⟨f, hf, hx⟩ := List.mem_flatMap.1 hx
  obtain ⟨g, hg, hy⟩ := List.mem_flatMap.1 hy
  have hclash := hno f hf g hg
  have hscript := h.script f hf
  have hscript' := h.script g hg
  obtain ⟨dir, name, rfl, hregular⟩ := h.regular f hf
  obtain ⟨dir', name', rfl, hregular'⟩ := h.regular g hg
  exact hs.agree hregular hregular' hscript hscript' hclash hx hy hxy

theorem Company.agree_bundle (h : Company s tree r files) (hs : Scene s tree r)
    (hno : ∀ f ∈ files, ∀ g ∈ files, ¬Clash s tree f g) :
    ∀ x ∈ bundlesBy s tree r files, ∀ y ∈ bundlesBy s tree r files, x.1 = y.1 → x.2 = y.2 := by
  intro x hx y hy hxy
  obtain ⟨a, ha, rfl⟩ := List.mem_map.1 hx
  obtain ⟨b, hb, rfl⟩ := List.mem_map.1 hy
  obtain ⟨f, hf, ha⟩ := List.mem_filterMap.1 ha
  obtain ⟨g, hg, hb⟩ := List.mem_filterMap.1 hb
  have hclash := hno f hf g hg
  have hscript := h.script f hf
  have hscript' := h.script g hg
  obtain ⟨dir, name, rfl, hregular⟩ := h.regular f hf
  obtain ⟨dir', name', rfl, hregular'⟩ := h.regular g hg
  exact hs.agree_bundle hregular hregular' hscript hscript' hclash ha hb hxy

/-- **Runs leave the same**: the same at every place, and the same manifest and fingerprint. -/
structure Same (a b : Manifest × FileTree) : Prop where
  places : ∀ p, a.2.at? p = b.2.at? p
  manifest : a.1 = b.1
  fingerprint : a.1.fingerprint = b.1.fingerprint

/-- **Without a clash every order leaves the same.** -/
theorem Company.same_of_perm {files' : List String} (h : Company s tree r files) (hs : Scene s tree r)
    (hno : ∀ f ∈ files, ∀ g ∈ files, ¬Clash s tree f g) (hperm : files.Perm files') (given : Option String) :
    Same (leftBy s given files tree) (leftBy s given files' tree) := by
  have h' := h.perm hperm.symm
  have hmanifest : Table.sort (bundlesBy s tree r files) = Table.sort (bundlesBy s tree r files') :=
    Table.sort_perm ((hperm.filterMap _).map _) (h.agree_bundle hs hno)
  have htexts : ∀ p, (tree.store (textsBy s tree r files)).at? p = (tree.store (textsBy s tree r files')).at? p :=
    FileTree.at?_store_perm (hperm.flatMap_right _) (fun x hx => (h.free_texts hs x hx).1) (h.agree hs hno)
  rw [h.leftBy_eq hs, h'.leftBy_eq hs, ← hmanifest]
  refine ⟨?_, rfl, rfl⟩
  cases given with
  | none => exact htexts
  | some id =>
    have hadmitted : ∀ ws, (tree.store (textsBy s tree r files)).admitted ws =
        (tree.store (textsBy s tree r files')).admitted ws := by
      intro ws
      simp only [FileTree.admitted, FileTree.isFolder, htexts]
    simp only
    rw [hadmitted]
    refine FileTree.at?_store_congr htexts fun x hx => ?_
    obtain ⟨y, -, rfl⟩ := List.mem_map.1 (FileTree.mem_admitted hx).1
    simp

/-- **The script treated last has its texts written.** -/
theorem Company.last_written (h : Company s tree r (files ++ [file])) (hs : Scene s tree r) {x : Place × List Char}
    (hx : x ∈ (yieldOf s tree r file).texts) :
    (tree.store (textsBy s tree r (files ++ [file]))).at? x.1 = some (.file (Disk.bytesOf x.2)) := by
  obtain ⟨dir, name, rfl, hregular⟩ := h.regular file (by simp)
  have hscript := h.script (pathBelow s.root (dir ++ [name])) (by simp)
  rw [textsBy, List.flatMap_append, List.flatMap_singleton, FileTree.store_append]
  exact FileTree.at?_store_of_mem (fun y hy => (hregular.free_yield hs.root.1 hy).1) hx fun y hy hyx =>
    hs.agree hregular hregular hscript hscript (fun hclash => hclash.ne rfl) hy hx hyx

theorem side_ne_manifest (stem : String) {n : String} (hn : n ∈ [manifestFile, headerFile]) :
    stem ++ ".nls.json" ≠ n ∧ stem ++ bundleSuffix ≠ n := by
  have hlength : manifestFile.toList.length < bundleSuffix.toList.length := by decide
  simp only [List.mem_cons, List.not_mem_nil, or_false] at hn
  rcases hn with rfl | rfl
  · constructor
    · intro h
      have hchar := congrArg (fun t : String => t.toList.reverse[5]?) h
      simp [manifestFile] at hchar
    · intro h
      have hlong := congrArg (fun t : String => t.toList.length) h
      simp only [String.toList_append, List.length_append] at hlong
      omega
  · constructor
    · intro h
      have hchar := congrArg (fun t : String => t.toList.reverse[5]?) h
      simp [headerFile] at hchar
    · intro h
      have hchar := congrArg (fun t : String => t.toList.reverse[5]?) h
      simp [bundleSuffix, headerFile] at hchar

/-- **Scripts that clash give different texts for a place**, one that the manifest does not take. -/
theorem Scene.texts_of_clash (hs : Scene s tree r) (h : Regular tree r dir name) (h' : Regular tree r dir' name')
    (hclash : Clash s tree (pathBelow s.root (dir ++ [name])) (pathBelow s.root (dir' ++ [name']))) :
    ∃ x ∈ (yieldOf s tree r (pathBelow s.root (dir ++ [name]))).texts,
      ∃ y ∈ (yieldOf s tree r (pathBelow s.root (dir' ++ [name']))).texts,
        x.1 = y.1 ∧ x.2 ≠ y.2 ∧ ∀ n ∈ [manifestFile, headerFile], r ++ ([] ++ [n]) ≠ x.1 := by
  obtain ⟨w, v, hw, hv, hpaths, hclear, hclear', hdiffer⟩ := hclash
  obtain ⟨rfl, hstem⟩ := (hs.withoutExtension_eq_iff h h').1 hpaths
  rw [hs.messagesWritten_iff h] at hclear
  rw [hs.messagesWritten_iff h'] at hclear'
  have hapart : ∀ {side : String}, (∀ n ∈ [manifestFile, headerFile], side ≠ n) →
      ∀ n ∈ [manifestFile, headerFile], r ++ ([] ++ [n]) ≠ r ++ (dir ++ [side]) := by
    intro side hside n hn heq
    have hlast : n = side := by simpa using congrArg List.getLast? heq
    exact hside n hn hlast.symm
  rcases hdiffer with hmessages | ⟨hfolder, hbundle⟩
  · have hx := (h.mem_yield hs.root.1).2 ⟨w, hw, h.mem_messages.2 hclear⟩
    have hy := (h'.mem_yield hs.root.1).2 ⟨v, hv, h'.mem_messages.2 hclear'⟩
    refine ⟨_, hx, _, hy, by rw [hstem], fun heq => ?_, hapart fun n hn => (side_ne_manifest _ hn).1⟩
    dsimp only at heq
    exact hmessages (messagesText_inj heq)
  · have hfree := mt (hs.kind?_bundle h).2 hfolder
    have hfree' : tree.at? (r ++ (dir ++ [(Path.splitName name').1 ++ bundleSuffix])) ≠ some .folder := by rwa [← hstem]
    have hx := (h.mem_yield hs.root.1).2 ⟨w, hw, h.mem_bundle.2 (h.verdict_iff.2 ⟨hclear, hfree⟩)⟩
    have hy := (h'.mem_yield hs.root.1).2 ⟨v, hv, h'.mem_bundle.2 (h'.verdict_iff.2 ⟨hclear', hfree'⟩)⟩
    refine ⟨_, hx, _, hy, by rw [hstem], fun heq => ?_, hapart fun n hn => (side_ne_manifest _ hn).2⟩
    dsimp only at heq
    exact hbundle (bundleText_inj heq)

theorem Company.at?_leftBy (h : Company s tree r files) (hs : Scene s tree r) (given : Option String) {p : Place}
    (hp : ∀ n ∈ [manifestFile, headerFile], r ++ ([] ++ [n]) ≠ p) :
    (leftBy s given files tree).2.at? p = (tree.store (textsBy s tree r files)).at? p := by
  rw [h.leftBy_eq hs]
  cases given with
  | none => rfl
  | some id =>
    simp only
    refine FileTree.at?_store_of_ne (fun x hx => ?_) fun x hx => ?_
    · obtain ⟨y, -, rfl⟩ := List.mem_map.1 (FileTree.mem_admitted hx).1
      simp
    · obtain ⟨y, hy, rfl⟩ := List.mem_map.1 (FileTree.mem_admitted hx).1
      exact hp y.1 (mem_manifestTexts hy)

/-- **Of two scripts that clash the one treated last counts**, so two orders leave different files. -/
theorem Company.differ_of_clash (h : Company s tree r files) (hs : Scene s tree r) {f g : String} (hf : f ∈ files)
    (hg : g ∈ files) (hclash : Clash s tree f g) (given : Option String) :
    ∃ files₁ files₂, files₁.Perm files ∧ files₂.Perm files ∧
      ¬Same (leftBy s given files₁ tree) (leftBy s given files₂ tree) := by
  let rest := (files.erase f).erase g
  have hg' : g ∈ files.erase f := (List.mem_erase_of_ne hclash.ne.symm).2 hg
  have hall : (f :: g :: rest).Perm files :=
    ((List.perm_cons_erase hg').symm.cons f).trans (List.perm_cons_erase hf).symm
  have hfirst : (rest ++ [f] ++ [g]).Perm files := by
    rw [List.append_assoc]
    exact List.perm_append_comm.trans hall
  have hsecond : (rest ++ [g] ++ [f]).Perm files := by
    rw [List.append_assoc]
    exact (List.perm_append_comm.trans (List.Perm.swap f g rest)).trans hall
  refine ⟨_, _, hfirst, hsecond, fun hsame => ?_⟩
  obtain ⟨dir, name, hpath, hregular⟩ := h.regular f hf
  obtain ⟨dir', name', hpath', hregular'⟩ := h.regular g hg
  rw [hpath, hpath'] at hclash
  obtain ⟨x, hx, y, hy, hxy, hdiffer, hmanifest⟩ := hs.texts_of_clash hregular hregular' hclash
  rw [← hpath] at hx
  rw [← hpath'] at hy
  have hplace := hsame.places x.1
  rw [(h.perm hfirst).at?_leftBy hs given hmanifest, (h.perm hsecond).at?_leftBy hs given hmanifest,
    (h.perm hsecond).last_written hs hx, hxy, (h.perm hfirst).last_written hs hy] at hplace
  have hbytes : Disk.bytesOf y.2 = Disk.bytesOf x.2 := FileNode.file.inj (Option.some.inj hplace)
  have htext := Disk.textOf_bytesOf y.2
  rw [hbytes, Disk.textOf_bytesOf] at htext
  exact hdiffer (Except.ok.inj htext)

theorem company_of_scanned {c : Context} {args : ProcessArguments} (hsound : tree.Sound)
    (hs : Scene (settingsOf args c) tree r) (horder : Orderly (settingsOf args c) tree (scanned c tree)) :
    Company (settingsOf args c) tree r (scanned c tree) where
  distinct := nodup_scanned hsound hs.root
  regular _ hfile := horder.regular hsound hs hfile
  script _ hfile := (mem_scanned hsound hs.root hfile).1
  manifest := horder.manifest_unlinked hs

/-- **The order in which scripts are treated is of no account exactly if no two of them clash.**  A reported run in place
leaves what treating the scripts it found one after another leaves, in the order of their paths.  Every other order leaves
the same at every place and the same manifest and fingerprint if and only if there are no two scripts whose paths differ
only in the extension, that both have their messages written, and whose messages differ, or whose keys do where they are
written too. -/
theorem any_order_iff (tree : FileTree) (working : String) (args : ProcessArguments) (c : Context) (hsound : tree.Sound)
    (hload : (tree.doing ((loadContext working args.root args.verbose).run.run "")).1.1 = .ok c)
    (hplace : (settingsOf args c).inPlace = true) (horder : Orderly (settingsOf args c) tree (scanned c tree)) :
    (∀ result notes next, tree.doing ((run working args).run.run "") = ((.ok result, notes), next) →
      next = (leftBy (settingsOf args c) (args.bundleId.or c.config.bundleId) (scanned c tree) tree).2) ∧
    ((∀ files files', files.Perm (scanned c tree) → files'.Perm (scanned c tree) →
      Same (leftBy (settingsOf args c) (args.bundleId.or c.config.bundleId) files tree)
        (leftBy (settingsOf args c) (args.bundleId.or c.config.bundleId) files' tree)) ↔
      ∀ f ∈ scanned c tree, ∀ g ∈ scanned c tree, ¬Clash (settingsOf args c) tree f g) := by
  obtain ⟨r, hs⟩ := exists_scene hsound hplace (Command.doing_loadContext hload).2
  have hcompany := company_of_scanned hsound hs horder
  refine ⟨fun result notes next hrun => ?_, fun hany f hf g hg hclash => ?_, fun hno files files' hfiles hfiles' => ?_⟩
  · obtain ⟨outcomes, mid, hdone, -, hnext⟩ := doing_run hload hrun
    rw [leftBy, hdone]
    rcases hnext with ⟨hid, rfl⟩ | ⟨id, hid, hwrite⟩
    · rw [hid]
    · rw [hid]
      simp only [hwrite]
  · obtain ⟨files₁, files₂, hfirst, hsecond, hdiffer⟩ := hcompany.differ_of_clash hs hf hg hclash
      (args.bundleId.or c.config.bundleId)
    exact hdiffer (hany files₁ files₂ hfirst hsecond)
  · refine (hcompany.perm hfiles).same_of_perm hs (fun f hf g hg => ?_) (hfiles.trans hfiles'.symm) _
    exact hno f (hfiles.mem_iff.1 hf) g (hfiles.mem_iff.1 hg)

/-- Two scripts of one stem write their messages to one place: the order in which they are treated decides. -/
theorem any_order_iff_stem :
    let tree : FileTree := ⟨[(["w"], .folder),
      (["w", ".nlsrc.json"], .file (Disk.bytesOf "\x7b\"includes\":[\"**/*\"]\x7d".toList)),
      (["w", "a.js"], .file (Disk.bytesOf "var n=require('vscode-nls');n.loadMessageBundle()".toList)),
      (["w", "a.ts"], .file (Disk.bytesOf "var n=require('vscode-nls');n.loadMessageBundle()('a','A')".toList))]⟩
    let args : ProcessArguments := ⟨some "/w", none, some "x", none, false, false⟩
    let c : Context := ⟨{ Config.standard with includes := ["**/*"] }, "/w", "/w", "/w"⟩
    tree.Sound ∧ (tree.doing ((loadContext "/w" args.root args.verbose).run.run "")).1.1 = .ok c ∧
      (settingsOf args c).inPlace = true ∧ Orderly (settingsOf args c) tree (scanned c tree) ∧
      ∃ files files', files.Perm ["/w/a.js", "/w/a.ts"] ∧ files'.Perm ["/w/a.js", "/w/a.ts"] ∧
        ¬Same (leftBy (settingsOf args c) (some "x") files tree) (leftBy (settingsOf args c) (some "x") files' tree) := by
  intro tree args c
  have hscanned : scanned c tree = ["/w/a.js", "/w/a.ts"] := by
    have hfound : (tree.walk c.root).files.filter (fun path =>
        !anyMatch (readGlobs c.config.ignores) (Path.relativeTo c.root path) &&
          (isScript path && anyMatch (readGlobs c.config.includes) (Path.relativeTo c.root path))) =
        ["/w/a.js", "/w/a.ts"] := by decide +kernel
    exact (congrArg sortPaths hfound).trans (List.mergeSort_of_pairwise (by decide))
  have hsound : tree.Sound := by
    refine ⟨by decide, by decide, ?_⟩
    intro e he
    simp only [tree, List.mem_cons, List.not_mem_nil, or_false] at he
    rcases he with rfl | rfl | rfl | rfl <;> rfl
  have hload : (tree.doing ((loadContext "/w" args.root args.verbose).run.run "")).1.1 = .ok c :=
    eq_ok_of_toOption (by decide +kernel)
  have hplace : (settingsOf args c).inPlace = true := by decide
  have horder : Orderly (settingsOf args c) tree (scanned c tree) := by
    rw [hscanned]
    exact ⟨by decide, by decide +kernel, by decide +kernel⟩
  have hempty : extraction (settingsOf args c) tree "/w/a.js" = .ok (.extracted
      ⟨"var n=require('vscode-nls');n.loadMessageBundle(__filename)".toList, none, .empty⟩) :=
    eq_ok_of_toOption (by decide +kernel)
  obtain ⟨v, hv, hmessages⟩ : ∃ v, extraction (settingsOf args c) tree "/w/a.ts" = .ok (.extracted v) ∧
      v.bundle.messages = ["A"] := by
    have hcheck : ∃ script, Script.parse "a.ts" "var n=require('vscode-nls');n.loadMessageBundle()('a','A')".toList =
        .ok script ∧ (Calls.analyze script none "vscode-nls").problems = [] ∧
        (Calls.analyze script none "vscode-nls").patches ≠ [] ∧
        (Calls.analyze script none "vscode-nls").bundle.messages = ["A"] ∧
        (Calls.Names.ofVisits "vscode-nls" script.program.visits).nestedInKey script script.program.visits = false := by
      refine exists_of_check ?_
      decide +kernel
    obtain ⟨script, hparse, hproblems, hpatches, hbundle, hclear⟩ := hcheck
    have htext : tree.text "/w/a.ts" = .ok "var n=require('vscode-nls');n.loadMessageBundle()('a','A')".toList :=
      eq_ok_of_toOption (by decide +kernel)
    have hname : Path.relativeTo (settingsOf args c).root "/w/a.ts" = "a.ts" := by decide +kernel
    have hoptions : optionsOf (settingsOf args c) "/w/a.ts" (tree.text ("/w/a.ts" ++ ".map")).toOption =
        ⟨none, none, "vscode-nls"⟩ := by decide +kernel
    rcases Calls.apply_patches hparse none "vscode-nls" none with ⟨-, d, -, hok, -⟩ | ⟨hnested, -⟩
    · have hextract := (extract_eq_extracted_iff hparse ⟨none, none, "vscode-nls"⟩ _).2
        ⟨hproblems, hpatches, d, hok, rfl⟩
      rw [← hname, ← hoptions] at hextract
      exact ⟨_, extraction_eq_ok_iff.2 ⟨_, htext, hextract⟩, hbundle⟩
    · cases hclear.symm.trans hnested
  have hclash : Clash (settingsOf args c) tree "/w/a.js" "/w/a.ts" := by
    refine ⟨_, v, hempty, hv, by decide +kernel, ⟨fun _ => by decide +kernel, by decide +kernel⟩,
      ⟨fun _ => by decide +kernel, by decide +kernel⟩, .inl ?_⟩
    rw [hmessages]
    decide
  refine ⟨hsound, hload, hplace, horder, ?_⟩
  by_contra hsame
  push Not at hsame
  have hno := (any_order_iff tree "/w" args c hsound hload hplace horder).2.1 fun files files' h h' => by
    rw [hscanned] at h h'
    exact hsame files files' h h'
  exact hno "/w/a.js" (by rw [hscanned]; decide) "/w/a.ts" (by rw [hscanned]; decide) hclash

end Process
end Localizer
