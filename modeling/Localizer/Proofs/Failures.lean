import Localizer.Proofs.Treatment
import Mathlib.Data.List.Forall2
/-!
# Failures — scripts that are told to have failed

In place a script keeps its bytes unless it is extracted: then it is written in its new form before the files beside it.
Where a folder stands in the place of one of these, the script is told to have failed and has changed all the same, and
that is the only way (`Process.failed_changed_iff`).
-/
namespace Localizer
namespace Process

open FileTree (pathBelow doing_bind)

variable {s : Settings} {tree next : FileTree} {r dir : Place} {name : String} {written : Place → Prop}

/-- **What becomes of a script**, told from the tree before the run. -/
structure Fate (s : Settings) (tree : FileTree) (r dir : Place) (name : String) (outcome : FileOutcome)
    (after : Option FileNode) : Prop where
  about : ∀ d ∈ outcome.diagnostics, d.file = Path.relativeTo s.base (pathBelow s.root (dir ++ [name]))
  extracted : ∀ w, extraction s tree (pathBelow s.root (dir ++ [name])) = .ok (.extracted w) →
    (outcome.Failed ↔ ∃ n ∈ sideNames name w.sourceMap.isSome, tree.at? (r ++ (dir ++ [n])) = some .folder) ∧
      after = some (.file (Disk.bytesOf w.contents))
  left : (∀ w, extraction s tree (pathBelow s.root (dir ++ [name])) ≠ .ok (.extracted w)) →
    after = tree.at? (r ++ (dir ++ [name]))

theorem Regular.apart {dir' : Place} {name' : String} (h : Regular tree r dir name) (h' : Regular tree r dir' name')
    (hne : dir ++ [name] ≠ dir' ++ [name']) :
    ¬Output r dir' name' (r ++ (dir ++ [name])) ∧ ¬Output r dir' name' (r ++ (dir ++ [name ++ ".map"])) := by
  constructor
  · exact not_output h.ending hne
  · rintro ⟨n, hn, heq⟩
    obtain ⟨rfl, hname⟩ := List.append_inj' (List.append_cancel_left heq) rfl
    obtain rfl : name ++ ".map" = n := by simpa using hname
    rcases List.mem_cons.1 hn with hn | hn
    · have hmem : name ++ ".map" ∈ sideNames name true := by simp [sideNames]
      exact ne_sideNames h'.ending hmem hn.symm
    · rcases getLast?_sideNames hn with ⟨-, hmap⟩ | hlast
      · have hsame := congrArg String.toList hmap
        simp only [String.toList_append] at hsame
        exact hne (by rw [String.toList_inj.1 (List.append_cancel_right hsame)])
      · simp at hlast

/-- **Treating one script of a run.**  What was written before does not matter, if neither the script nor its map was. -/
theorem Scene.doing_processFile (hs : Scene s tree r) (h : Regular tree r dir name) {now : FileTree}
    (hnow : FileTree.Amended written tree now) (hscript : ¬written (r ++ (dir ++ [name])))
    (hmap : ¬written (r ++ (dir ++ [name ++ ".map"]))) :
    ∃ outcome next, now.doing (processFile s (pathBelow s.root (dir ++ [name]))) = (outcome, next) ∧
      Fate s tree r dir name outcome (next.at? (r ++ (dir ++ [name]))) ∧
      FileTree.Amended (Output r dir name) now next := by
  have hs' := hs.mono hnow.keeps
  have h' := h.mono hnow
  have hsame := hs.extraction_congr h hs' h' (hnow.at?_eq hscript) (hnow.at?_eq hmap)
  have habout := processFile_about s (pathBelow s.root (dir ++ [name])) now
  by_cases hex : ∃ w, extraction s tree (pathBelow s.root (dir ++ [name])) = .ok (.extracted w)
  · obtain ⟨w, hw⟩ := hex
    obtain ⟨outcome, next, hdone, hfailed, hafter, hamended⟩ := hs'.doing_processFile_extracted h' (hsame.trans hw)
    rw [hdone] at habout
    refine ⟨outcome, next, hdone, ⟨habout, fun w' hw' => ?_, fun hleft => absurd hw (hleft w)⟩, hamended⟩
    obtain rfl : w = w' := by simpa using hw.symm.trans hw'
    simp only [hnow.folder_iff] at hfailed
    exact ⟨hfailed, hafter⟩
  · have hleft : ∀ w, extraction s tree (pathBelow s.root (dir ++ [name])) ≠ .ok (.extracted w) :=
      fun w hw => hex ⟨w, hw⟩
    obtain ⟨result, hresult, -⟩ := doing_treat_left hs.inPlace fun w hw => hleft w (hsame.symm.trans hw)
    rw [Process.doing_processFile hresult] at habout
    exact ⟨_, now, Process.doing_processFile hresult,
      ⟨habout, fun w hw => absurd hw (hleft w), fun _ => hnow.at?_eq hscript⟩, .refl _ _⟩

/-- **Treating the scripts of a run**, in any order of paths that differ. -/
theorem Scene.doing_processFiles (hs : Scene s tree r) {files : List String} (hnodup : files.Nodup)
    (hfiles : ∀ file ∈ files, ∃ dir name, file = pathBelow s.root (dir ++ [name]) ∧ Regular tree r dir name)
    {now : FileTree} (hnow : FileTree.Amended written tree now)
    (hwritten : ∀ dir name, pathBelow s.root (dir ++ [name]) ∈ files → Regular tree r dir name →
      ¬written (r ++ (dir ++ [name])) ∧ ¬written (r ++ (dir ++ [name ++ ".map"]))) :
    ∃ outcomes next, now.doing (processFiles s files) = (outcomes, next) ∧
      List.Forall₂ (fun file outcome => ∃ dir name, file = pathBelow s.root (dir ++ [name]) ∧ Regular tree r dir name ∧
        Fate s tree r dir name outcome (next.at? (r ++ (dir ++ [name])))) files outcomes ∧
      FileTree.Amended (fun p => ∃ dir name, pathBelow s.root (dir ++ [name]) ∈ files ∧ Regular tree r dir name ∧
        Output r dir name p) now next := by
  induction files generalizing now written with
  | nil => exact ⟨[], now, rfl, .nil, .refl _ _⟩
  | cons file files ih =>
    obtain ⟨hnotin, hdistinct⟩ := List.nodup_cons.1 hnodup
    obtain ⟨dir, name, rfl, h⟩ := hfiles file (List.mem_cons_self ..)
    obtain ⟨hscript, hmap⟩ := hwritten dir name (List.mem_cons_self ..) h
    obtain ⟨outcome, mid, hfirst, hfate, hmid⟩ := hs.doing_processFile h hnow hscript hmap
    -- the other scripts and their maps are no results of this one
    have hother : ∀ dir' name', pathBelow s.root (dir' ++ [name']) ∈ files → dir' ++ [name'] ≠ dir ++ [name] :=
      fun dir' name' hmem hsame => hnotin (hsame ▸ hmem)
    obtain ⟨outcomes, next, hrest, hfates, hnext⟩ := ih hdistinct (fun f hf => hfiles f (List.mem_cons_of_mem _ hf))
      (hnow.trans hmid) fun dir' name' hmem h' => by
        have hbefore := hwritten dir' name' (List.mem_cons_of_mem _ hmem) h'
        have hapart := h'.apart h (hother dir' name' hmem)
        exact ⟨fun hw => hw.elim hbefore.1 hapart.1, fun hw => hw.elim hbefore.2 hapart.2⟩
    refine ⟨outcome :: outcomes, next, ?_, .cons ⟨dir, name, rfl, h, ?_⟩ hfates, (hmid.trans hnext).weaken ?_⟩
    · rw [processFiles, doing_bind hfirst, doing_bind hrest]
      rfl
    · rwa [hnext.at?_eq]
      rintro ⟨dir', name', hmem, h', hout⟩
      exact (h.apart h' (hother dir' name' hmem).symm).1 hout
    · rintro p (hout | ⟨dir', name', hmem, h', hout⟩)
      · exact ⟨dir, name, List.mem_cons_self .., h, hout⟩
      · exact ⟨dir', name', List.mem_cons_of_mem _ hmem, h', hout⟩

theorem join_name (base name : String) : Path.join base name = pathBelow base ([] ++ [name]) := by
  rw [pathBelow, List.nil_append, Path.joinSegments]
  simp [Text.joined]

theorem proper_manifest {n : String} (hn : n ∈ [manifestFile, headerFile]) : ∀ x ∈ [] ++ [n], Path.Proper x := by
  have hnames : ∀ n ∈ [manifestFile, headerFile], Path.Proper n := by decide
  intro x hx
  exact List.mem_singleton.1 hx ▸ hnames n hn

theorem opened_nil (hs : Scene s tree r) : tree.Opened r [] := by
  intro front hfront
  rw [List.prefix_nil.1 hfront, List.append_nil]
  exact hs.output.2.folder

/-- **The texts that a manifest is written as.** -/
def manifestTexts (s : Settings) (id : String) (manifest : Manifest) : List (String × List Char) :=
  [(manifestFile, manifest.toJson.pretty.toList),
    (headerFile, (manifest.header id (Path.relativeTo s.base s.outputRoot)).toJson.pretty.toList)]

theorem mem_manifestTexts {id : String} {manifest : Manifest} {x : String × List Char}
    (hx : x ∈ manifestTexts s id manifest) : x.1 ∈ [manifestFile, headerFile] := by
  have hmem := List.mem_map_of_mem (f := Prod.fst) hx
  exact hmem

/-- **Writing the manifest** goes as far as no folder stands in the place of one of its two files. -/
theorem Scene.doing_writeManifest (hs : Scene s tree r)
    (hlink : ∀ n ∈ [manifestFile, headerFile], ∀ target, tree.at? (r ++ ([] ++ [n])) ≠ some (.link target)) (id : String)
    (manifest : Manifest) : (tree.doing (writeManifest s id manifest)).2 =
      tree.store (tree.admitted (placed r [] (manifestTexts s id manifest))) := by
  have hmake : tree.doing (Disk.makeFolders s.outputRoot) = (.ok (), tree) := FileTree.doing_change hs.output.makeFolders
  have htexts := doing_performAll_texts hs.output (opened_nil hs)
    (fun x (hx : x ∈ manifestTexts s id manifest) => proper_manifest (mem_manifestTexts hx))
    fun x hx => hlink x.1 (mem_manifestTexts hx)
  rw [writeManifest, doing_bind hmake, join_name, join_name]
  rw [List.map_singleton] at htexts
  dsimp only at htexts ⊢
  rw [htexts]
  rfl

/-- **Writing the manifest changes two files of the output folder.** -/
theorem Scene.writeManifest_amended (hs : Scene s tree r)
    (hlink : ∀ n ∈ [manifestFile, headerFile], ∀ target, tree.at? (r ++ ([] ++ [n])) ≠ some (.link target)) (id : String)
    (manifest : Manifest) : FileTree.Amended (fun p => ∃ n ∈ [manifestFile, headerFile], p = r ++ ([] ++ [n])) tree
      (tree.doing (writeManifest s id manifest)).2 := by
  rw [hs.doing_writeManifest hlink]
  refine (amended_placed fun x hx => hlink x.1 (mem_manifestTexts hx)).weaken ?_
  rintro p ⟨x, hx, rfl⟩
  exact ⟨x.1, mem_manifestTexts hx, rfl⟩

/-! ## A whole run -/

/-- **The scripts that a run finds.** -/
def scanned (c : Context) (tree : FileTree) : List String :=
  (tree.doing (scanScripts c.root c.config.includes c.config.ignores)).1.files

/-- **A run that is reported**: its scripts are treated, and then perhaps the manifest is written. -/
theorem doing_run {working : String} {args : ProcessArguments} {c : Context} {result : CommandResult} {notes : String}
    (hload : (tree.doing ((loadContext working args.root args.verbose).run.run "")).1.1 = .ok c)
    (hrun : tree.doing ((run working args).run.run "") = ((.ok result, notes), next)) :
    ∃ outcomes mid, tree.doing (processFiles (settingsOf args c) (scanned c tree)) = (outcomes, mid) ∧
      result.diagnostics = Diagnostic.sort (outcomes.flatMap (·.diagnostics)) ∧
      (args.bundleId.or c.config.bundleId = none ∧ next = mid ∨ ∃ id, args.bundleId.or c.config.bundleId = some id ∧
        mid.doing (writeManifest (settingsOf args c) id (manifestOf outcomes)) = (.ok (), next)) := by
  obtain ⟨⟨notes', hloaded⟩, -⟩ := Command.doing_loadContext hload
  have hscan : tree.doing (scanScripts c.root c.config.includes c.config.ignores) =
      ((tree.doing (scanScripts c.root c.config.includes c.config.ignores)).1, tree) := rfl
  cases hfiles : tree.doing (processFiles (settingsOf args c) (scanned c tree)) with
  | mk outcomes mid =>
    refine ⟨outcomes, mid, rfl, ?_⟩
    rw [scanned] at hfiles
    rw [run, Command.doing_bind hloaded] at hrun
    dsimp only at hrun
    rw [Command.doing_bind (Command.doing_ask hscan _), Command.doing_bind (Command.doing_note ..),
      Command.doing_bind (Command.doing_ask hfiles _)] at hrun
    split at hrun
    · rename_i id hid
      cases hmanifest : mid.doing (writeManifest (settingsOf args c) id (manifestOf outcomes)) with
      | mk done last =>
        cases done with
        | error failure =>
          rw [Command.doing_askFor_error hmanifest] at hrun
          cases hrun
        | ok =>
          rw [Command.doing_bind (Command.doing_askFor hmanifest _)] at hrun
          cases hrun
          exact ⟨rfl, Or.inr ⟨id, hid, hmanifest⟩⟩
    · rename_i hnone
      cases hrun
      exact ⟨rfl, Or.inl ⟨Option.eq_none_iff_forall_ne_some.2 hnone, rfl⟩⟩

theorem splitName_of_isScript {base : String} (hbase : base ≠ "") (h : ∀ x ∈ dir ++ [name], Path.Proper x)
    (hscript : isScript (pathBelow base (dir ++ [name])) = true) :
    ∃ stem ending, Path.splitName name = (stem, some ending) ∧ name = stem ++ "." ++ ending ∧
      ending ∈ ["js", "mjs", "cjs", "jsx", "ts", "mts", "cts", "tsx"] := by
  rw [isScript, Path.extension?, Path.fileName?_pathBelow hbase h, Option.bind_some] at hscript
  rcases Path.splitName_cases name with hsplit | ⟨stem, ending, hsplit, hname⟩
  · rw [hsplit] at hscript
    cases hscript
  · rw [hsplit] at hscript
    exact ⟨stem, ending, hsplit, hname, List.contains_iff_mem.1 hscript⟩

theorem ending_of_isScript {base : String} (hbase : base ≠ "") (h : ∀ x ∈ dir ++ [name], Path.Proper x)
    (hscript : isScript (pathBelow base (dir ++ [name])) = true) :
    name.toList.getLast? = some 's' ∨ name.toList.getLast? = some 'x' := by
  obtain ⟨stem, ending, -, rfl, hmem⟩ := splitName_of_isScript hbase h hscript
  simp only [List.mem_cons, List.not_mem_nil, or_false] at hmem
  rcases hmem with rfl | rfl | rfl | rfl | rfl | rfl | rfl | rfl <;> simp

/-- **The scripts of a run are files below its folder.** -/
theorem scanned_eq (c : Context) (hroot : tree.Leads c.root r) :
    scanned c tree = sortPaths (((tree.filesBelow r).map (pathBelow c.root)).filter fun path =>
      !anyMatch (readGlobs c.config.ignores) (Path.relativeTo c.root path) &&
        (isScript path && anyMatch (readGlobs c.config.includes) (Path.relativeTo c.root path))) := by
  have hscan : scanned c tree = ((tree.walk c.root).select c.root c.config.ignores fun path =>
      isScript path && anyMatch (readGlobs c.config.includes) (Path.relativeTo c.root path)).files := rfl
  rw [hscan, hroot.walk, Walk.select]

theorem mem_scanned {c : Context} (hs : tree.Sound) (hroot : tree.Leads c.root r) {file : String}
    (h : file ∈ scanned c tree) : isScript file = true ∧ ∃ dir name, file = pathBelow c.root (dir ++ [name]) ∧
      (∀ x ∈ dir ++ [name], Path.Proper x) ∧ ∃ contents, tree.at? (r ++ (dir ++ [name])) = some (.file contents) := by
  rw [scanned_eq c hroot, sortPaths, List.mem_mergeSort, List.mem_filter, Bool.and_eq_true, Bool.and_eq_true] at h
  obtain ⟨hfile, -, hscript, -⟩ := h
  obtain ⟨names, hnames, rfl⟩ := List.mem_map.1 hfile
  obtain ⟨hne, hproper, hcontents⟩ := hs.file_below hnames
  rw [← List.dropLast_concat_getLast hne] at hproper hcontents hscript ⊢
  exact ⟨hscript, _, _, rfl, hproper, hcontents⟩

theorem nodup_scanned {c : Context} (hs : tree.Sound) (hroot : tree.Leads c.root r) : (scanned c tree).Nodup := by
  rw [scanned_eq c hroot]
  refine (List.mergeSort_perm _ _).nodup_iff.2 (List.Nodup.filter _ ?_)
  refine List.Nodup.map_on (fun a ha b hb heq => ?_) (hs.nodup_filesBelow r)
  obtain ⟨hne, hproper, -⟩ := hs.file_below ha
  obtain ⟨hne', hproper', -⟩ := hs.file_below hb
  exact Path.pathBelow_inj hroot.1 hne hproper hne' hproper' heq

/-- **The paths of the files written beside a script.** -/
def sidePaths (s : Settings) (file : String) (mapped : Bool) : List String :=
  (if mapped then [targetOf s file ++ ".map"] else []) ++
    [Path.withoutExtension (targetOf s file) ++ ".nls.json", Path.withoutExtension (targetOf s file) ++ bundleSuffix]

/-- **Paths of a run that mean what they say**: no backslash in the scripts' paths below the folder, which would be read
as a slash, and no link where something is written beside a script or for the manifest. -/
structure Orderly (s : Settings) (tree : FileTree) (files : List String) : Prop where
  plain : ∀ file ∈ files, '\\' ∉ ((Path.below? s.root file).getD file).toList
  sides : ∀ file ∈ files, ∀ path ∈ sidePaths s file true, tree.isLink path = false
  manifest : ∀ name ∈ [manifestFile, headerFile], tree.isLink (Path.join s.outputRoot name) = false

theorem sidePaths_eq (hroot : s.root ≠ "") (hout : s.outputRoot ≠ "") (h : ∀ x ∈ dir ++ [name], Path.Proper x)
    (hplain : '\\' ∉ (Path.joinSegments (dir ++ [name])).toList) (mapped : Bool) :
    sidePaths s (pathBelow s.root (dir ++ [name])) mapped =
      (sideNames name mapped).map fun n => pathBelow s.outputRoot (dir ++ [n]) := by
  have htarget := targetOf_pathBelow hroot h hplain
  obtain ⟨hmap, hmessages, hbundle⟩ := sidePath_eq hout h
  cases mapped <;> simp [sidePaths, sideNames, htarget, hmap, hmessages, hbundle]

theorem exists_scene (hs : tree.Sound) (hplace : s.inPlace = true) (hkind : tree.kind? s.root = some .folder) :
    ∃ r, Scene s tree r := by
  obtain ⟨r, hroot⟩ := hs.leads_of_kind? hkind
  have hcomponents : Path.components s.outputRoot = Path.components s.root := by simpa [Settings.inPlace] using hplace
  have hne : s.outputRoot ≠ "" := by
    intro hempty
    rw [hempty] at hcomponents
    exact Path.components_ne_nil hroot.1 hcomponents.symm
  exact ⟨r, hplace, hroot, hroot.congr hne (Path.components_inj hcomponents).2⟩

theorem listed_of_scanned {c : Context} (hs : tree.Sound) (hroot : tree.Leads c.root r) {file : String}
    (hfile : file ∈ scanned c tree) (hplain : '\\' ∉ ((Path.below? c.root file).getD file).toList) :
    ∃ dir name, file = pathBelow c.root (dir ++ [name]) ∧ Listed tree r dir name := by
  obtain ⟨hscript, dir, name, rfl, hproper, hcontents⟩ := mem_scanned hs hroot hfile
  rw [Path.below?_pathBelow hroot.1 (by simp) hproper, Option.getD_some] at hplain
  have hopen : tree.Opened r dir := by
    obtain ⟨contents, hcontents⟩ := hcontents
    have hparent := hs.parent (p := r ++ (dir ++ [name])) (by simp [hcontents])
    rw [← List.append_assoc, List.dropLast_concat] at hparent
    exact hs.opened hparent
  exact ⟨dir, name, rfl, hproper, hplain, ending_of_isScript hroot.1 hproper hscript, hopen, hcontents⟩

theorem Orderly.regular {c : Context} {args : ProcessArguments} (hs : tree.Sound)
    (hscene : Scene (settingsOf args c) tree r) (h : Orderly (settingsOf args c) tree (scanned c tree)) {file : String}
    (hfile : file ∈ scanned c tree) :
    ∃ dir name, file = pathBelow (settingsOf args c).root (dir ++ [name]) ∧ Regular tree r dir name := by
  obtain ⟨dir, name, rfl, hlisted⟩ := listed_of_scanned hs hscene.root hfile (h.plain _ hfile)
  refine ⟨dir, name, rfl, hlisted, ?_⟩
  intro n hn target htarget
  have hpath : pathBelow (settingsOf args c).outputRoot (dir ++ [n]) ∈
      sidePaths (settingsOf args c) (pathBelow c.root (dir ++ [name])) true := by
    have heq := sidePaths_eq hscene.root.1 hscene.output.1 hlisted.proper hlisted.plain true
    exact heq ▸ List.mem_map_of_mem hn
  have hlocate := FileTree.locate_pathBelow false hscene.output hlisted.opened (proper_side hlisted.proper hn) (Or.inl rfl)
  exact Bool.false_ne_true ((h.sides _ hfile _ hpath).symm.trans (FileTree.isLink_of_at? hlocate htarget))

theorem Orderly.manifest_unlinked {files : List String} (h : Orderly s tree files) (hs : Scene s tree r) :
    ∀ n ∈ [manifestFile, headerFile], ∀ target, tree.at? (r ++ [n]) ≠ some (.link target) := by
  intro n hn target htarget
  have hlocate := FileTree.locate_pathBelow false hs.output (opened_nil hs) (proper_manifest hn) (Or.inl rfl)
  rw [← join_name] at hlocate
  exact Bool.false_ne_true ((h.manifest n hn).symm.trans (FileTree.isLink_of_at? hlocate htarget))

theorem Scene.kind?_side (hs : Scene s tree r) (h : Regular tree r dir name) {n : String} (hn : n ∈ sideNames name true) :
    tree.kind? (pathBelow s.outputRoot (dir ++ [n])) = some .folder ↔ tree.at? (r ++ (dir ++ [n])) = some .folder :=
  FileTree.kind?_eq_folder_iff (FileTree.locate_pathBelow true hs.output h.opened (proper_side h.proper hn)
    (Or.inr (h.unlinked n hn)))

theorem Scene.blocked_iff (hs : Scene s tree r) (h : Regular tree r dir name) (mapped : Bool) :
    (∃ path ∈ sidePaths s (pathBelow s.root (dir ++ [name])) mapped, tree.kind? path = some .folder) ↔
      ∃ n ∈ sideNames name mapped, tree.at? (r ++ (dir ++ [n])) = some .folder := by
  rw [sidePaths_eq hs.root.1 hs.output.1 h.proper h.plain]
  constructor
  · rintro ⟨path, hpath, hfolder⟩
    obtain ⟨n, hn, rfl⟩ := List.mem_map.1 hpath
    exact ⟨n, hn, (hs.kind?_side h (mem_sideNames hn)).1 hfolder⟩
  · rintro ⟨n, hn, hfolder⟩
    exact ⟨_, List.mem_map_of_mem hn, (hs.kind?_side h (mem_sideNames hn)).2 hfolder⟩

theorem Scene.read_script (hs : Scene s tree r) (h : Regular tree r dir name) {bytes : ByteArray}
    (hbytes : tree.at? (r ++ (dir ++ [name])) = some (.file bytes)) :
    tree.read (pathBelow s.root (dir ++ [name])) = .ok bytes := by
  rw [FileTree.read_eq (h.locate hs.root), hbytes]

/-- **What a fate means for the bytes of a script.** -/
theorem Fate.bytes {outcome : FileOutcome} (hs : Scene s tree r) (h : Regular tree r dir name)
    (hs' : Scene s next r) (h' : Regular next r dir name)
    (hfate : Fate s tree r dir name outcome (next.at? (r ++ (dir ++ [name])))) :
    ∃ before after, tree.read (pathBelow s.root (dir ++ [name])) = .ok before ∧
      next.read (pathBelow s.root (dir ++ [name])) = .ok after ∧
      (after = before ∨ ∃ w, extraction s tree (pathBelow s.root (dir ++ [name])) = .ok (.extracted w) ∧
        after = Disk.bytesOf w.contents) ∧
      (outcome.Failed ∧ after ≠ before ↔ ∃ w,
        extraction s tree (pathBelow s.root (dir ++ [name])) = .ok (.extracted w) ∧ Disk.bytesOf w.contents ≠ before ∧
          ∃ path ∈ sidePaths s (pathBelow s.root (dir ++ [name])) w.sourceMap.isSome, tree.kind? path = some .folder) := by
  obtain ⟨before, hbefore⟩ := h.file
  obtain ⟨after, hafter⟩ := h'.file
  have hnew : ∀ w, extraction s tree (pathBelow s.root (dir ++ [name])) = .ok (.extracted w) →
      after = Disk.bytesOf w.contents := fun w hw => by simpa using hafter.symm.trans (hfate.extracted w hw).2
  have hcases : after = before ∨ ∃ w, extraction s tree (pathBelow s.root (dir ++ [name])) = .ok (.extracted w) ∧
      after = Disk.bytesOf w.contents := by
    by_cases hex : ∃ w, extraction s tree (pathBelow s.root (dir ++ [name])) = .ok (.extracted w)
    · exact Or.inr (hex.imp fun w hw => ⟨hw, hnew w hw⟩)
    · have hsame := hfate.left fun w hw => hex ⟨w, hw⟩
      rw [hafter, hbefore] at hsame
      exact Or.inl (by simpa using hsame)
  refine ⟨before, after, hs.read_script h hbefore, hs'.read_script h' hafter, hcases, ?_, ?_⟩
  · rintro ⟨hfailed, hne⟩
    obtain ⟨w, hw, rfl⟩ := hcases.resolve_left hne
    exact ⟨w, hw, hne, (hs.blocked_iff h _).2 ((hfate.extracted w hw).1.1 hfailed)⟩
  · rintro ⟨w, hw, hne, hblocked⟩
    exact ⟨(hfate.extracted w hw).1.2 ((hs.blocked_iff h _).1 hblocked), hnew w hw ▸ hne⟩

/-- **The only way in which a script that is told to have failed changes.**  A run in place that is reported tells of each
script it found, by its name.  Afterwards the script has its bytes or those of its new form.  It is told to have failed
and has not kept its bytes exactly if its new form has other bytes and a folder stands where its map or one of its two
files of messages goes. -/
theorem failed_changed_iff (tree next : FileTree) (working : String) (args : ProcessArguments) (c : Context)
    (result : CommandResult) (notes : String) (hsound : tree.Sound)
    (hload : (tree.doing ((loadContext working args.root args.verbose).run.run "")).1.1 = .ok c)
    (hplace : (settingsOf args c).inPlace = true) (horder : Orderly (settingsOf args c) tree (scanned c tree))
    (hrun : tree.doing ((run working args).run.run "") = ((.ok result, notes), next)) :
    ∃ outcomes : List FileOutcome, outcomes.length = (scanned c tree).length ∧
      result.diagnostics = Diagnostic.sort (outcomes.flatMap (·.diagnostics)) ∧
      ∀ (i : Nat) (file : String) (outcome : FileOutcome), (scanned c tree)[i]? = some file →
        outcomes[i]? = some outcome → (∀ d ∈ outcome.diagnostics, d.file = Path.relativeTo c.base file) ∧
        ∃ before after, tree.read file = .ok before ∧ next.read file = .ok after ∧
          (after = before ∨ ∃ w, extraction (settingsOf args c) tree file = .ok (.extracted w) ∧
            after = Disk.bytesOf w.contents) ∧
          (outcome.Failed ∧ after ≠ before ↔ ∃ w, extraction (settingsOf args c) tree file = .ok (.extracted w) ∧
            Disk.bytesOf w.contents ≠ before ∧
            ∃ path ∈ sidePaths (settingsOf args c) file w.sourceMap.isSome, tree.kind? path = some .folder) := by
  obtain ⟨r, hs⟩ := exists_scene hsound hplace (Command.doing_loadContext hload).2
  obtain ⟨outcomes, mid, hfiles, hdiagnostics, hnext⟩ := doing_run hload hrun
  obtain ⟨outcomes', mid', hdone, hfates, hmid⟩ := hs.doing_processFiles
    (nodup_scanned hsound hs.root) (fun file hfile => horder.regular hsound hs hfile)
    (FileTree.Amended.refl (fun _ => False) tree) fun _ _ _ _ => ⟨id, id⟩
  obtain ⟨rfl, rfl⟩ := Prod.mk.inj (hfiles.symm.trans hdone)
  have hlast : FileTree.Amended (fun p => ∃ n ∈ [manifestFile, headerFile], p = r ++ [n]) mid next := by
    rcases hnext with ⟨-, rfl⟩ | ⟨id, -, hwrite⟩
    · exact .refl _ _
    · have hamended := (hs.mono hmid.keeps).writeManifest_amended (fun n hn target htarget =>
        horder.manifest_unlinked hs n hn target ((hmid.link_iff _ _).1 htarget)) id (manifestOf outcomes)
      rwa [hwrite] at hamended
  refine ⟨outcomes, hfates.length_eq.symm, hdiagnostics, fun i file outcome hfile houtcome => ?_⟩
  obtain ⟨hi, rfl⟩ := List.getElem?_eq_some_iff.1 hfile
  obtain ⟨hi', rfl⟩ := List.getElem?_eq_some_iff.1 houtcome
  obtain ⟨dir, name, hpath, h, hfate⟩ := (List.forall₂_iff_get.1 hfates).2 i hi hi'
  change (scanned c tree)[i] = _ at hpath
  rw [hpath]
  -- the manifest has no script's name
  have hkept : next.at? (r ++ (dir ++ [name])) = mid.at? (r ++ (dir ++ [name])) := by
    refine hlast.at?_eq ?_
    rintro ⟨n, hn, heq⟩
    obtain rfl : name = n := by simpa using congrArg List.getLast? heq
    simp only [List.mem_cons, List.not_mem_nil, or_false] at hn
    rcases hn with rfl | rfl <;> exact absurd h.ending (by decide)
  rw [← hkept] at hfate
  exact ⟨hfate.about, hfate.bytes hs h ((hs.mono hmid.keeps).mono hlast.keeps) ((h.mono hmid).mono hlast)⟩

theorem eq_ok_of_toOption {ε α : Type} {x : Except ε α} {a : α} (h : x.toOption = some a) : x = .ok a := by
  cases x with
  | error e => cases h
  | ok b => rw [Option.some.inj h]

/-- A folder stands where the messages of a script go: the script is told to have failed, and has its new form. -/
theorem failed_changed_blocked :
    let text := "var n=require('vscode-nls');n.loadMessageBundle()".toList
    let tree : FileTree := ⟨[(["w"], .folder), (["w", "a.js"], .file (Disk.bytesOf text)), (["w", "a.nls.json"], .folder)]⟩
    let args : ProcessArguments := ⟨some "/w", none, none, none, false, false⟩
    let c : Context := ⟨Config.standard, "/w", "/w", "/w"⟩
    tree.Sound ∧ (tree.doing ((loadContext "/w" args.root args.verbose).run.run "")).1.1 = .ok c ∧
      (settingsOf args c).inPlace = true ∧ Orderly (settingsOf args c) tree (scanned c tree) ∧
      ∃ result notes next d, tree.doing ((run "/w" args).run.run "") = ((.ok result, notes), next) ∧
        d ∈ result.diagnostics ∧ d.isError = true ∧ d.file = "a.js" ∧
        next.read "/w/a.js" = .ok (Disk.bytesOf "var n=require('vscode-nls');n.loadMessageBundle(__filename)".toList) := by
  intro text tree args c
  have hscanned : scanned c tree = ["/w/a.js"] := by decide +kernel
  have hsound : tree.Sound := by
    refine ⟨by decide, by decide, ?_⟩
    intro e he
    simp only [tree, List.mem_cons, List.not_mem_nil, or_false] at he
    rcases he with rfl | rfl | rfl <;> rfl
  have hload : (tree.doing ((loadContext "/w" args.root args.verbose).run.run "")).1.1 = .ok c :=
    eq_ok_of_toOption (by decide +kernel)
  have hplace : (settingsOf args c).inPlace = true := by decide
  have horder : Orderly (settingsOf args c) tree (scanned c tree) := by
    rw [hscanned]
    exact ⟨by decide, by decide +kernel, by decide +kernel⟩
  have hextract : extraction (settingsOf args c) tree "/w/a.js" = .ok (.extracted
      ⟨"var n=require('vscode-nls');n.loadMessageBundle(__filename)".toList, none, .empty⟩) :=
    eq_ok_of_toOption (by decide +kernel)
  have hread : tree.read "/w/a.js" = .ok (Disk.bytesOf text) := eq_ok_of_toOption (by decide +kernel)
  have hok : (tree.doing ((run "/w" args).run.run "")).1.1.isOk = true := by decide +kernel
  refine ⟨hsound, hload, hplace, horder, ?_⟩
  cases hrun : tree.doing ((run "/w" args).run.run "") with
  | mk reported next =>
    obtain ⟨reported, notes⟩ := reported
    rw [hrun] at hok
    cases reported with
    | error failure => cases hok
    | ok result =>
      obtain ⟨outcomes, hlength, hdiagnostics, hscripts⟩ :=
        failed_changed_iff tree next "/w" args c result notes hsound hload hplace horder hrun
      rw [hscanned] at hlength hscripts
      obtain ⟨outcome, rfl⟩ := List.length_eq_one_iff.1 hlength
      obtain ⟨habout, before, after, hbefore, hafter, hcases, hiff⟩ := hscripts 0 "/w/a.js" outcome rfl rfl
      obtain rfl : before = Disk.bytesOf text := Except.ok.inj (hbefore.symm.trans hread)
      obtain ⟨⟨d, hd, herror⟩, hne⟩ := hiff.2 ⟨_, hextract, by decide +kernel, "/w/a.nls.json", by decide, by decide +kernel⟩
      obtain ⟨w, hw, rfl⟩ := hcases.resolve_left hne
      cases hextract.symm.trans hw
      refine ⟨result, notes, next, d, rfl, ?_, herror, (habout d hd).trans (by decide), hafter⟩
      rw [hdiagnostics, Diagnostic.sort, List.mem_mergeSort]
      simpa using hd

end Process
end Localizer
