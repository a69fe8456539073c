import Localizer.Proofs.Failures
import Localizer.Proofs.Growth
import Localizer.Proofs.Relocation
/-!
# Copies — scripts and their counterparts in a separate output folder

What becomes of a script's text does not depend on its source map (`extract_contents`), so what other scripts leave behind
cannot change it.  A script that is treated has a counterpart in the output folder: its new form, or a copy.  One that
cannot be treated has none: nothing is written for it (`Process.counterpart_of_extraction`).
-/
namespace Localizer

namespace Document

variable {d e : Document}

theorem refusal?_congr (h : outline d.lines = outline e.lines) (sorted : List Patch) :
    d.refusal? sorted = e.refusal? sorted := by
  have hlength : d.lines.length = e.lines.length := by simpa [outline] using congrArg List.length h
  have hholds : ∀ p, d.holds p = e.holds p := fun p => by rw [holds, holds, outline_content h]
  simp only [refusal?, hholds, hlength]

/-- **Marks have no part in the text that patches make.** -/
theorem text_apply_congr (h : outline d.lines = outline e.lines) (patches : List Patch) :
    (d.apply patches).map text = (e.apply patches).map text := by
  simp only [apply, refusal?_congr h]
  split
  · rfl
  · exact congrArg Except.ok (outline_text ((outline_edits _ _ _ _ _ h).trans (outline_edits _ _ _ _ _ rfl).symm))

end Document

/-- **The text of a script's new form**, if it has one. -/
def Outcome.contents? : Outcome → Option (List Char)
  | .extracted w => some w.contents
  | _ => none

/-- **The source map has no part in what becomes of a script's text.** -/
theorem extract_contents (file : String) (text : List Char) (options : ExtractionOptions) (map : Option String) :
    (extract file text { options with sourceMap := map }).map Outcome.contents? =
      (extract file text options).map Outcome.contents? := by
  unfold extract
  cases Script.parse file text with
  | error failure => rfl
  | ok script =>
    simp only
    generalize Calls.analyze script options.relative options.moduleName = analysis
    by_cases hproblems : (!analysis.problems.isEmpty) = true
    · rw [if_pos hproblems, if_pos hproblems]
    by_cases hnone : analysis.patches.isEmpty = true
    · rw [if_neg hproblems, if_neg hproblems, if_pos hnone, if_pos hnone]
    rw [if_neg hproblems, if_neg hproblems, if_neg hnone, if_neg hnone]
    have htext := Document.text_apply_congr (Document.outline_ofText text (map.bind SourceMap.decode)
      (options.sourceMap.bind SourceMap.decode)) analysis.patches
    cases ha : (Document.ofText text (map.bind SourceMap.decode)).apply analysis.patches <;>
      cases hb : (Document.ofText text (options.sourceMap.bind SourceMap.decode)).apply analysis.patches <;>
      simp_all [Except.map, Outcome.contents?]

namespace Disk

theorem bytesOf_of_textOf {bytes : ByteArray} {text : List Char} (h : textOf bytes = .ok text) : bytesOf text = bytes := by
  unfold textOf String.fromUTF8? at h
  split at h
  · rename_i s hs
    split at hs
    · cases h
      cases hs
      simp [bytesOf, String.fromUTF8]
    · cases hs
  · cases h

end Disk

/-- **A failure of the disk**, and not of what a file holds. -/
def Failure.ofDisk : Failure → Bool
  | .file _ => true
  | .writing .. => true
  | .creating .. => true
  | .reading _ e => e != .notText
  | _ => false

namespace Process

open FileTree (pathBelow doing_bind doing_change doing_change_error)

variable {s : Settings} {tree next now mid after last : FileTree} {r dir : Place} {name file path : String}
  {files : List String} {step : Step} {steps : List Step} {failure : Failure}

/-! ## What commands make of a tree -/

theorem evolves_change {f : FileTree → Except FileError FileTree} (hs : tree.Sound)
    (h : ∀ next, f tree = .ok next → tree.Evolves next) : tree.Evolves (tree.doing (FileTree.change f)).2 := by
  cases hf : f tree with
  | ok next =>
    rw [doing_change hf]
    exact h next hf
  | error e =>
    rw [doing_change_error hf]
    exact hs.evolves

theorem evolves_makeFolders (hs : tree.Sound) (path : String) :
    tree.Evolves (tree.doing (Disk.makeFolders path)).2 :=
  evolves_change hs fun _ h =>
    have hopens := hs.opens_makeFolders h
    ⟨hopens.sound, hopens.grown.weaken fun _ _ => trivial⟩

theorem evolves_writeText (hs : tree.Sound) (path : String) (text : List Char) :
    tree.Evolves (tree.doing (Disk.writeText path text)).2 :=
  evolves_change hs fun _ h => hs.evolves_write h

theorem evolves_perform (hs : tree.Sound) (step : Step) : tree.Evolves (tree.doing (perform step)).2 := by
  cases step with
  | folder path => exact evolves_makeFolders hs path
  | mainFile path text => exact evolves_writeText hs path text
  | sideFile path text => exact evolves_writeText hs path text

theorem evolves_performAll (hs : tree.Sound) (steps : List Step) : tree.Evolves (tree.doing (performAll steps)).2 := by
  induction steps generalizing tree with
  | nil => exact hs.evolves
  | cons step steps ih =>
    have hstep := evolves_perform hs step
    cases hdone : tree.doing (perform step) with
    | mk done mid =>
      rw [hdone] at hstep
      cases done with
      | ok =>
        rw [doing_performAll_cons hdone]
        exact hstep.trans (ih hstep.sound)
      | error failure =>
        rw [doing_performAll_stop hdone]
        exact hstep

theorem evolves_treat (hs : tree.Sound) (s : Settings) (file : String) : tree.Evolves (tree.doing (treat s file)).2 := by
  cases htext : tree.text file with
  | error e =>
    rw [doing_treat_unread htext]
    exact hs.evolves
  | ok text =>
    cases hplan : plan s file text (tree.text (file ++ ".map")).toOption with
    | error failure =>
      rw [doing_treat_unplanned htext hplan]
      exact hs.evolves
    | ok planned =>
      have hsteps := evolves_performAll hs planned.1
      rw [doing_treat htext hplan rfl]
      exact hsteps

/-- **Treat scripts one after another**, each with its failure as it is. -/
def treatAll (s : Settings) : List String → StateM FileTree (List (Except Failure FileOutcome))
  | [] => return []
  | file :: files => do
    let first ← treat s file
    let rest ← treatAll s files
    return first :: rest

theorem doing_treatAll_cons (s : Settings) (file : String) (files : List String) (tree : FileTree) :
    tree.doing (treatAll s (file :: files)) =
      ((tree.doing (treat s file)).1 :: ((tree.doing (treat s file)).2.doing (treatAll s files)).1,
        ((tree.doing (treat s file)).2.doing (treatAll s files)).2) := rfl

theorem evolves_treatAll (hs : tree.Sound) (s : Settings) (files : List String) :
    tree.Evolves (tree.doing (treatAll s files)).2 := by
  induction files generalizing tree with
  | nil => exact hs.evolves
  | cons file files ih =>
    have hfirst := evolves_treat hs s file
    exact hfirst.trans (ih hfirst.sound)

/-- **What is told of scripts comes from how each was treated.** -/
theorem doing_processFiles_eq (s : Settings) (files : List String) (tree : FileTree) :
    tree.doing (processFiles s files) =
      (List.zipWith (told s) files (tree.doing (treatAll s files)).1, (tree.doing (treatAll s files)).2) := by
  induction files generalizing tree with
  | nil => rfl
  | cons file files ih =>
    rw [processFiles, doing_bind (doing_processFile rfl), doing_bind (ih _)]
    rfl

theorem evolves_writeManifest (hs : tree.Sound) (s : Settings) (id : String) (manifest : Manifest) :
    tree.Evolves (tree.doing (writeManifest s id manifest)).2 := by
  have hfolder := evolves_makeFolders hs s.outputRoot
  cases hmake : tree.doing (Disk.makeFolders s.outputRoot) with
  | mk done mid =>
    rw [hmake] at hfolder
    rw [writeManifest, doing_bind hmake]
    cases done with
    | error e => exact hfolder
    | ok => exact hfolder.trans (evolves_performAll hfolder.sound _)

theorem exists_of_mapError {ε ε' α : Type} {x : Except ε α} {f : ε → ε'} {e' : ε'} (h : x.mapError f = .error e') :
    ∃ e, e' = f e := by
  cases x with
  | error e => exact ⟨e, (Except.error.inj h).symm⟩
  | ok a => cases h

/-- **Steps fail by the disk only.** -/
theorem ofDisk_perform (h : tree.doing (perform step) = (.error failure, next)) : failure.ofDisk = true := by
  have hresult := congrArg Prod.fst h
  cases step with
  | folder path =>
    change (tree.doing (Disk.makeFolders path)).1.mapError _ = _ at hresult
    obtain ⟨e, rfl⟩ := exists_of_mapError hresult
    rfl
  | mainFile path text =>
    change (tree.doing (Disk.writeText path text)).1.mapError _ = _ at hresult
    obtain ⟨e, rfl⟩ := exists_of_mapError hresult
    rfl
  | sideFile path text =>
    change (tree.doing (Disk.writeText path text)).1.mapError _ = _ at hresult
    obtain ⟨e, rfl⟩ := exists_of_mapError hresult
    rfl

theorem ofDisk_performAll (h : tree.doing (performAll steps) = (.error failure, next)) : failure.ofDisk = true := by
  induction steps generalizing tree with
  | nil => cases h
  | cons step steps ih =>
    cases hdone : tree.doing (perform step) with
    | mk done mid =>
      cases done with
      | ok =>
        rw [doing_performAll_cons hdone] at h
        exact ih h
      | error failure' =>
        rw [doing_performAll_stop hdone] at h
        obtain rfl : failure' = failure := Except.error.inj (Prod.mk.inj h).1
        exact ofDisk_perform hdone

theorem doing_performAll_ok (h : tree.doing (performAll (step :: steps)) = (.ok (), next)) :
    ∃ mid, tree.doing (perform step) = (.ok (), mid) ∧ mid.doing (performAll steps) = (.ok (), next) := by
  cases hdone : tree.doing (perform step) with
  | mk done mid =>
    cases done with
    | ok =>
      rw [doing_performAll_cons hdone] at h
      exact ⟨mid, rfl, h⟩
    | error failure =>
      rw [doing_performAll_stop hdone] at h
      cases h

theorem opens_of_makeFolders (hs : tree.Sound) (h : tree.doing (Disk.makeFolders path) = (.ok (), next)) :
    FileTree.Opens path tree next := by
  change tree.doing (FileTree.change _) = _ at h
  cases hmake : tree.makeFolders path with
  | ok made =>
    rw [doing_change hmake] at h
    obtain rfl := (Prod.mk.inj h).2
    exact hs.opens_makeFolders hmake
  | error e =>
    rw [doing_change_error hmake] at h
    cases h

theorem opens_of_perform (hs : tree.Sound) (h : tree.doing (perform (.folder path)) = (.ok (), next)) :
    FileTree.Opens path tree next := by
  cases hmake : tree.doing (Disk.makeFolders path) with
  | mk done made =>
    rw [perform, doing_bind hmake] at h
    cases done with
    | ok =>
      obtain rfl := (Prod.mk.inj h).2
      exact opens_of_makeFolders hs hmake
    | error e => cases h

/-! ## A separate output folder -/

/-- **An output folder aside from the folder of the scripts**, with `last` the tree after the run: neither of the two
stands in the other, and no link stands in the output folder.  No script's path below its folder has a backslash, which
would be read as a slash. -/
structure Aside (s : Settings) (tree last : FileTree) (files : List String) : Prop where
  named : s.outputRoot ≠ ""
  plain : ∀ file ∈ files, '\\' ∉ ((Path.below? s.root file).getD file).toList
  apart : ∀ r o, last.Leads s.root r → last.Leads s.outputRoot o → ¬r <+: o ∧ ¬o <+: r
  unlinked : ∀ o, last.Leads s.outputRoot o → tree.Unlinked o

/-- **Files are delivered into the output folder** once their folder is made: the first one, and then those beside it. -/
theorem Aside.deliver (ha : Aside s tree last files) (hnow : tree.Evolves now) {parent : String} (hparent : parent ≠ "")
    (hsteps : Path.steps parent = Path.steps s.outputRoot ++ dir) (hmid : FileTree.Opens parent now mid)
    {text : List Char} {sides : List (String × List Char)}
    (hnames : ∀ n ∈ name :: sides.map (·.1), ∀ x ∈ dir ++ [n], Path.Proper x)
    (hdone : mid.doing (performAll (.mainFile (pathBelow s.outputRoot (dir ++ [name])) text ::
      sides.map fun x => .sideFile (pathBelow s.outputRoot (dir ++ [x.1])) x.2)) = (.ok (), after))
    (hlast : after.Evolves last) :
    ∃ o, last.Leads s.outputRoot o ∧
      FileTree.Grown (fun p => ∃ n ∈ name :: sides.map (·.1), p = o ++ (dir ++ [n])) now after ∧
      (name ∉ sides.map (·.1) → after.at? (o ++ (dir ++ [name])) = some (.file (Disk.bytesOf text))) := by
  have hdir : ∀ x ∈ dir, Path.Proper x := fun x hx => hnames name (List.mem_cons_self ..) x (List.mem_append_left _ hx)
  have hevolves := evolves_performAll hmid.sound (.mainFile (pathBelow s.outputRoot (dir ++ [name])) text ::
    sides.map fun x => .sideFile (pathBelow s.outputRoot (dir ++ [x.1])) x.2)
  rw [hdone] at hevolves
  -- the folder that was made stands straight below the output folder
  obtain ⟨q, hq⟩ := hmid.leads hparent
  obtain ⟨o, hout, hstraight⟩ := hq.straight hmid.sound ha.named hsteps hdir
  have hout' := hout.mono (hevolves.trans hlast).grown.keeps
  have hlink : mid.Unlinked o := (ha.unlinked o hout').mono (hnow.grown.trans hmid.grown)
  obtain rfl := hstraight hlink
  have hopen : mid.Opened o dir := hmid.sound.opened hq.2.folder
  have hlinks : ∀ x ∈ (name, text) :: sides, ∀ target, mid.at? (o ++ (dir ++ [x.1])) ≠ some (.link target) :=
    fun x _ target => hlink _ target (List.prefix_append ..)
  have hwritten := doing_performAll_texts hout hopen
    (fun x (hx : x ∈ (name, text) :: sides) => hnames x.1 (List.mem_map_of_mem hx)) hlinks
  obtain ⟨hresult, rfl⟩ := Prod.mk.inj (hwritten.symm.trans hdone)
  have hamended := amended_placed hlinks
  refine ⟨o, hout', (hmid.grown.trans hamended.grown).weaken ?_, fun hname => ?_⟩
  · rintro p (hfalse | ⟨x, hx, rfl⟩)
    · exact hfalse.elim
    · exact ⟨x.1, List.mem_map_of_mem hx, rfl⟩
  · have hclear : mid.isFolder (o ++ (dir ++ [name])) = false := by
      refine Bool.eq_false_iff.2 fun hfolder => ?_
      rw [if_pos hfolder] at hresult
      cases hresult
    exact at?_placed_first hclear hname

/-- **What is delivered for a script**: its new form or the script as it is, and files beside it. -/
theorem plan_delivers (hplace : s.inPlace = false) (hroot : s.root ≠ "") (hout : s.outputRoot ≠ "")
    (h : Listed tree r dir name) {text : List Char} {map : Option (List Char)} {outcome : Outcome}
    (hextract : extract (Path.relativeTo s.root (pathBelow s.root (dir ++ [name]))) text
      (optionsOf s (pathBelow s.root (dir ++ [name])) map) = .ok outcome) :
    ∃ parent, ∃ sides : List (String × List Char), ∃ said, parent ≠ "" ∧ Path.steps parent = Path.steps s.outputRoot ++ dir ∧
      (∀ n ∈ sides.map (·.1), n ∈ sideNames name true) ∧
      plan s (pathBelow s.root (dir ++ [name])) text map = .ok (.folder parent ::
        .mainFile (pathBelow s.outputRoot (dir ++ [name])) (outcome.contents?.getD text) ::
        sides.map fun x => .sideFile (pathBelow s.outputRoot (dir ++ [x.1])) x.2, said) := by
  obtain ⟨parent, hparent, hne, hsteps⟩ := Path.parent?_pathBelow hout h.proper
  have htarget := targetOf_pathBelow hroot h.proper h.plain
  by_cases hleft : ∀ w, outcome ≠ .extracted w
  · obtain ⟨said, hplan, -⟩ := plan_copied hextract hleft
    refine ⟨parent, (map.map fun t => (name ++ ".map", t)).toList, said, hne, hsteps, ?_, ?_⟩
    · cases map <;> simp [sideNames]
    · have hcontents : outcome.contents? = none := by
        cases outcome with
        | extracted w => exact absurd rfl (hleft w)
        | unchanged => rfl
        | rejected problems => rfl
      rw [hplan, htarget, hcontents]
      cases map <;> simp [copySteps, writeSteps, hplace, hparent, (sidePath_eq hout h.proper).1]
  · simp only [ne_eq, not_forall, not_not] at hleft
    obtain ⟨w, rfl⟩ := hleft
    have hplan := plan_extracted hextract
    rw [htarget, resultSteps_eq hout h.proper hparent] at hplan
    refine ⟨parent, _, _, hne, hsteps, ?_, hplan⟩
    rw [map_sidesOf]
    exact fun n hn => mem_sideNames hn

theorem Listed.text_congr (h : Listed tree r dir name) (hroot : tree.Leads s.root r) (hnow : tree.Evolves now)
    (hkept : now.at? (r ++ (dir ++ [name])) = tree.at? (r ++ (dir ++ [name]))) :
    now.text (pathBelow s.root (dir ++ [name])) = tree.text (pathBelow s.root (dir ++ [name])) := by
  have hnow' : Listed now r dir name :=
    ⟨h.proper, h.plain, h.ending, h.opened.mono hnow.grown.keeps, by rw [hkept]; exact h.file⟩
  exact Process.text_congr (h.locate hroot) (hnow'.locate (hroot.mono hnow.grown.keeps)) hkept

/-- **What becomes of a script's text depends on the text only.** -/
theorem extraction_contents (htext : now.text file = tree.text file) :
    (extraction s now file).map Outcome.contents? = (extraction s tree file).map Outcome.contents? := by
  rw [extraction, extraction, htext]
  cases tree.text file with
  | error e => rfl
  | ok text =>
    have hform := extract_contents (Path.relativeTo s.root file) text
      (optionsOf s file (tree.text (file ++ ".map")).toOption) ((now.text (file ++ ".map")).toOption.map String.ofList)
    change (extract _ text (optionsOf s file (now.text (file ++ ".map")).toOption)).map _ = _ at hform
    change ((extract _ text (optionsOf s file (now.text (file ++ ".map")).toOption)).mapError Failure.extracting).map _ =
      ((extract _ text (optionsOf s file (tree.text (file ++ ".map")).toOption)).mapError Failure.extracting).map _
    cases ha : extract (Path.relativeTo s.root file) text (optionsOf s file (now.text (file ++ ".map")).toOption) <;>
      cases hb : extract (Path.relativeTo s.root file) text (optionsOf s file (tree.text (file ++ ".map")).toOption) <;>
      simp_all [Except.map, Except.mapError]

theorem doing_treat_unextracted (h : extraction s tree file = .error failure) :
    tree.doing (treat s file) = (.error failure, tree) := by
  cases htext : tree.text file with
  | error e =>
    rw [extraction, htext] at h
    cases h
    exact doing_treat_unread htext
  | ok text =>
    cases hextract : extract (Path.relativeTo s.root file) text
        (optionsOf s file (tree.text (file ++ ".map")).toOption) with
    | error e =>
      rw [extraction, htext] at h
      change (extract _ text _).mapError _ = _ at h
      rw [hextract] at h
      cases h
      exact doing_treat_unplanned htext (plan_failed hextract)
    | ok outcome =>
      rw [extraction_eq_ok_iff.2 ⟨text, htext, hextract⟩] at h
      cases h

/-- **A script that is treated is delivered**, if the disk does not fail. -/
theorem Aside.delivered (ha : Aside s tree last files) (hplace : s.inPlace = false) (hroot : s.root ≠ "")
    (h : Listed tree r dir name) (hnow : tree.Evolves now) {text : List Char} {outcome : Outcome}
    (htext : now.text (pathBelow s.root (dir ++ [name])) = .ok text)
    (hextract : extraction s now (pathBelow s.root (dir ++ [name])) = .ok outcome) {result : Except Failure FileOutcome}
    (hdone : now.doing (treat s (pathBelow s.root (dir ++ [name]))) = (result, after))
    (hdisk : ∀ failure, result = .error failure → failure.ofDisk = false) (hlast : after.Evolves last) :
    ∃ o, last.Leads s.outputRoot o ∧ FileTree.Grown (Output o dir name) now after ∧
      after.at? (o ++ (dir ++ [name])) = some (.file (Disk.bytesOf (outcome.contents?.getD text))) := by
  obtain ⟨text', htext', hextract⟩ := extraction_eq_ok_iff.1 hextract
  obtain rfl : text = text' := Except.ok.inj (htext.symm.trans htext')
  obtain ⟨parent, sides, said, hne, hsteps, hsides, hplan⟩ := plan_delivers hplace hroot ha.named h hextract
  cases hperform : now.doing (performAll (.folder parent ::
      .mainFile (pathBelow s.outputRoot (dir ++ [name])) (outcome.contents?.getD text) ::
      sides.map fun x => .sideFile (pathBelow s.outputRoot (dir ++ [x.1])) x.2)) with
  | mk done after' =>
    rw [Process.doing_treat htext hplan hperform] at hdone
    obtain ⟨rfl, rfl⟩ := Prod.mk.inj hdone
    cases done with
    | error failure =>
      have hfine := hdisk failure rfl
      rw [ofDisk_performAll hperform] at hfine
      cases hfine
    | ok =>
      obtain ⟨mid, hfolder, hrest⟩ := doing_performAll_ok hperform
      have hnames : ∀ n ∈ name :: sides.map (·.1), ∀ x ∈ dir ++ [n], Path.Proper x := by
        intro n hn
        rcases List.mem_cons.1 hn with rfl | hn
        · exact h.proper
        · exact proper_side h.proper (hsides n hn)
      obtain ⟨o, hout, hgrown, hfile⟩ := ha.deliver hnow hne hsteps (opens_of_perform hnow.sound hfolder) hnames hrest hlast
      refine ⟨o, hout, hgrown.weaken ?_, hfile fun hmem => ne_sideNames h.ending (hsides name hmem) rfl⟩
      rintro p ⟨n, hn, rfl⟩
      rcases List.mem_cons.1 hn with rfl | hn
      · exact ⟨n, List.mem_cons_self .., rfl⟩
      · exact ⟨n, List.mem_cons_of_mem _ (hsides n hn), rfl⟩

/-! ## A whole run -/

/-- **The places that the scripts of a run are delivered to.** -/
def Delivered (s : Settings) (tree last : FileTree) (r : Place) (files : List String) (p : Place) : Prop :=
  ∃ o dir name outcome, last.Leads s.outputRoot o ∧ pathBelow s.root (dir ++ [name]) ∈ files ∧ Listed tree r dir name ∧
    extraction s tree (pathBelow s.root (dir ++ [name])) = .ok outcome ∧ Output o dir name p

theorem Delivered.mono {files' : List String} {p : Place} (h : Delivered s tree last r files p) (hsub : files ⊆ files') :
    Delivered s tree last r files' p := by
  obtain ⟨o, dir, name, outcome, hout, hmem, hrest⟩ := h
  exact ⟨o, dir, name, outcome, hout, hsub hmem, hrest⟩

theorem Aside.not_delivered (ha : Aside s tree last files) (hroot : last.Leads s.root r) {files' : List String} {p : Place}
    (hp : r <+: p) : ¬Delivered s tree last r files' p := by
  rintro ⟨o, dir, name, outcome, hout, -, -, -, n, -, rfl⟩
  obtain ⟨hnot, hnot'⟩ := ha.apart r o hroot hout
  exact (List.prefix_or_prefix_of_prefix hp (List.prefix_append o _)).elim hnot hnot'

/-- **Treating one script of a run** delivers it if it can be treated, and writes nothing else. -/
theorem Aside.doing_treat (ha : Aside s tree last files) (hplace : s.inPlace = false) (hroot : tree.Leads s.root r)
    (h : Listed tree r dir name) (hnow : tree.Evolves now)
    (hkept : now.at? (r ++ (dir ++ [name])) = tree.at? (r ++ (dir ++ [name]))) {result : Except Failure FileOutcome}
    (hdone : now.doing (treat s (pathBelow s.root (dir ++ [name]))) = (result, after))
    (hdisk : ∀ failure, result = .error failure → failure.ofDisk = false) (hlast : after.Evolves last) :
    FileTree.Grown (Delivered s tree last r [pathBelow s.root (dir ++ [name])]) now after ∧
      ∀ text outcome, tree.text (pathBelow s.root (dir ++ [name])) = .ok text →
        extraction s tree (pathBelow s.root (dir ++ [name])) = .ok outcome → ∃ o, last.Leads s.outputRoot o ∧
          after.at? (o ++ (dir ++ [name])) = some (.file (Disk.bytesOf (outcome.contents?.getD text))) := by
  have htext := h.text_congr hroot hnow hkept
  have hform := extraction_contents (s := s) htext
  cases hextract : extraction s tree (pathBelow s.root (dir ++ [name])) with
  | error failure =>
    cases hnow' : extraction s now (pathBelow s.root (dir ++ [name])) with
    | error failure' =>
      rw [doing_treat_unextracted hnow'] at hdone
      rw [← (Prod.mk.inj hdone).2]
      exact ⟨.refl _ _, fun text outcome _ hok => by cases hok⟩
    | ok outcome' =>
      rw [hnow', hextract] at hform
      cases hform
  | ok outcome =>
    cases hnow' : extraction s now (pathBelow s.root (dir ++ [name])) with
    | error failure =>
      rw [hnow', hextract] at hform
      cases hform
    | ok outcome' =>
      rw [hnow', hextract] at hform
      have hcontents : outcome'.contents? = outcome.contents? := Except.ok.inj hform
      obtain ⟨text, hread, -⟩ := extraction_eq_ok_iff.1 hextract
      obtain ⟨o, hout, hgrown, hfile⟩ := ha.delivered hplace hroot.1 h hnow (htext.trans hread) hnow' hdone hdisk hlast
      refine ⟨hgrown.weaken fun p hp => ⟨o, dir, name, outcome, hout, List.mem_singleton_self _, h, hextract, hp⟩, ?_⟩
      intro text' outcome'' hread' hok
      obtain rfl : text = text' := Except.ok.inj (hread.symm.trans hread')
      obtain rfl : outcome = outcome'' := Except.ok.inj hok
      exact ⟨o, hout, hcontents ▸ hfile⟩

/-- **Treating the scripts of a run**, in any order of paths that differ: each one that can be treated is delivered, and
nothing else is written. -/
theorem Aside.doing_treatAll {all : List String} (ha : Aside s tree last all) (hplace : s.inPlace = false)
    (hroot : tree.Leads s.root r) (hnodup : files.Nodup)
    (hfiles : ∀ file ∈ files, ∃ dir name, file = pathBelow s.root (dir ++ [name]) ∧ Listed tree r dir name)
    (hnow : tree.Evolves now) (hkept : ∀ dir name, pathBelow s.root (dir ++ [name]) ∈ files → Listed tree r dir name →
      now.at? (r ++ (dir ++ [name])) = tree.at? (r ++ (dir ++ [name])))
    {results : List (Except Failure FileOutcome)} (hdone : now.doing (treatAll s files) = (results, after))
    (hdisk : ∀ failure, .error failure ∈ results → failure.ofDisk = false) (hlast : after.Evolves last) :
    FileTree.Grown (Delivered s tree last r files) now after ∧
      ∀ dir name text outcome, pathBelow s.root (dir ++ [name]) ∈ files → Listed tree r dir name →
        tree.text (pathBelow s.root (dir ++ [name])) = .ok text →
        extraction s tree (pathBelow s.root (dir ++ [name])) = .ok outcome → ∃ o, last.Leads s.outputRoot o ∧
          after.at? (o ++ (dir ++ [name])) = some (.file (Disk.bytesOf (outcome.contents?.getD text))) := by
  induction files generalizing now results with
  | nil =>
    obtain ⟨-, rfl⟩ := Prod.mk.inj hdone
    exact ⟨.refl _ _, fun _ _ _ _ hmem => absurd hmem List.not_mem_nil⟩
  | cons file files ih =>
    obtain ⟨hnotin, hdistinct⟩ := List.nodup_cons.1 hnodup
    obtain ⟨dir, name, rfl, h⟩ := hfiles file (List.mem_cons_self ..)
    cases hfirst : now.doing (treat s (pathBelow s.root (dir ++ [name]))) with
    | mk result mid =>
    cases hrest : mid.doing (treatAll s files) with
    | mk rest after' =>
    rw [doing_treatAll_cons, hfirst, hrest] at hdone
    dsimp only at hdone
    obtain ⟨rfl, rfl⟩ := Prod.mk.inj hdone
    have hmid : now.Evolves mid := by
      have hevolves := evolves_treat hnow.sound s (pathBelow s.root (dir ++ [name]))
      rwa [hfirst] at hevolves
    have hafter : mid.Evolves after' := by
      have hevolves := evolves_treatAll hmid.sound s files
      rwa [hrest] at hevolves
    have hend := hafter.trans hlast
    obtain ⟨hgrown, hdelivered⟩ := ha.doing_treat hplace hroot h hnow (hkept dir name (List.mem_cons_self ..) h) hfirst
      (fun failure hfailure => hdisk failure (by simp [hfailure])) hend
    -- what is delivered does not touch the scripts that are still to come
    have hstill : ∀ dir' name', pathBelow s.root (dir' ++ [name']) ∈ files → Listed tree r dir' name' →
        mid.at? (r ++ (dir' ++ [name'])) = tree.at? (r ++ (dir' ++ [name'])) := by
      intro dir' name' hmem h'
      have hbefore := hkept dir' name' (List.mem_cons_of_mem _ hmem) h'
      obtain ⟨contents, hcontents⟩ := h'.file
      have hnot : ¬Delivered s tree last r [pathBelow s.root (dir ++ [name])] (r ++ (dir' ++ [name'])) :=
        ha.not_delivered (hroot.mono (hnow.trans (hmid.trans hend)).grown.keeps) (List.prefix_append ..)
      rw [hcontents] at hbefore ⊢
      exact (hgrown.file_iff hnot contents).2 hbefore
    obtain ⟨hlater, hthere⟩ := ih hdistinct (fun f hf => hfiles f (List.mem_cons_of_mem _ hf)) (hnow.trans hmid) hstill hrest
      (fun failure hfailure => hdisk failure (List.mem_cons_of_mem _ hfailure))
    refine ⟨(hgrown.trans hlater).weaken ?_, fun dir' name' text outcome hmem h' htext hextract => ?_⟩
    · rintro p (hp | hp)
      · exact hp.mono (by simp)
      · exact hp.mono (List.subset_cons_self ..)
    · rcases List.mem_cons.1 hmem with hsame | hmem
      · have hnames := Path.pathBelow_inj hroot.1 (by simp) h'.proper (by simp) h.proper hsame
        obtain ⟨rfl, hname⟩ := List.append_inj' hnames rfl
        obtain rfl : name' = name := by simpa using hname
        obtain ⟨o, hout, hfile⟩ := hdelivered text outcome htext hextract
        refine ⟨o, hout, (hlater.file_iff ?_ _).2 hfile⟩
        rintro ⟨o', dir'', name'', outcome', hout', hmem', -, -, houtput⟩
        obtain rfl := hout.unique hout'
        refine not_output h.ending (fun hsame' => hnotin ?_) houtput
        rwa [hsame']
      · exact hthere dir' name' text outcome hmem h' htext hextract

/-- **The places that the manifest is written to.** -/
def Noted (s : Settings) (last : FileTree) (p : Place) : Prop :=
  ∃ o, last.Leads s.outputRoot o ∧ ∃ n ∈ [manifestFile, headerFile], p = o ++ ([] ++ [n])

theorem Aside.doing_writeManifest (ha : Aside s tree last files) (hnow : tree.Evolves now) {id : String}
    {manifest : Manifest} (hdone : now.doing (writeManifest s id manifest) = (.ok (), after)) (hlast : after.Evolves last) :
    FileTree.Grown (Noted s last) now after := by
  cases hmake : now.doing (Disk.makeFolders s.outputRoot) with
  | mk done mid =>
    rw [writeManifest, doing_bind hmake] at hdone
    cases done with
    | error e => cases hdone
    | ok =>
      have hfiles : mid.doing (performAll (.mainFile (pathBelow s.outputRoot ([] ++ [manifestFile]))
          manifest.toJson.pretty.toList :: [(headerFile, (manifest.header id
            (Path.relativeTo s.base s.outputRoot)).toJson.pretty.toList)].map fun x =>
          .sideFile (pathBelow s.outputRoot ([] ++ [x.1])) x.2)) = (.ok (), after) := by
        rw [List.map_singleton, ← join_name, ← join_name]
        dsimp only at hdone ⊢
        exact hdone
      obtain ⟨o, hout, hgrown, -⟩ := ha.deliver hnow ha.named (List.append_nil _).symm
        (opens_of_makeFolders hnow.sound hmake) (fun n hn => proper_manifest hn) hfiles hlast
      exact hgrown.weaken fun p hp => ⟨o, hout, hp⟩

theorem Listed.not_noted (h : Listed tree r dir name) (o : Place) : ¬Noted s last (o ++ (dir ++ [name])) := by
  rintro ⟨o', -, n, hn, heq⟩
  obtain rfl : name = n := by simpa using congrArg List.getLast? heq
  simp only [List.mem_cons, List.not_mem_nil, or_false] at hn
  rcases hn with rfl | rfl <;> exact absurd h.ending (by decide)

theorem Aside.inPlace_eq_false (ha : Aside s tree last files) (hs : last.Sound) (hroot : last.Leads s.root r) :
    s.inPlace = false := by
  refine Bool.eq_false_iff.2 fun hplace => ?_
  have hkind : last.kind? s.root = some .folder := by rw [FileTree.kind?, hroot.locate]
  obtain ⟨r', hscene⟩ := exists_scene hs hplace hkind
  exact (ha.apart r' r' hscene.root hscene.output).1 (List.prefix_refl r')

theorem read_output {o : Place} {bytes : ByteArray} (hs : tree.Sound) (hout : tree.Leads s.outputRoot o)
    (hproper : ∀ x ∈ dir ++ [name], Path.Proper x) (hfile : tree.at? (o ++ (dir ++ [name])) = some (.file bytes)) :
    tree.read (pathBelow s.outputRoot (dir ++ [name])) = .ok bytes := by
  have hparent := hs.parent (p := o ++ (dir ++ [name])) (by simp [hfile])
  rw [← List.append_assoc, List.dropLast_concat] at hparent
  rw [FileTree.read_eq (FileTree.locate_pathBelow true hout (hs.opened hparent) hproper (Or.inr (by simp [hfile]))), hfile]

/-- **Where nothing was delivered or noted, a file stood there before.** -/
theorem Aside.file_before (ha : Aside s tree last files) (hroot : s.root ≠ "") (h : Listed tree r dir name)
    (hlast : tree.Evolves last)
    (hgrown : FileTree.Grown (fun p => Delivered s tree last r files p ∨ Noted s last p) tree last) (hfailed : ∀ outcome,
      extraction s tree (pathBelow s.root (dir ++ [name])) ≠ .ok outcome) {p : Place} {bytes : ByteArray}
    (hlocate : last.locate true (targetOf s (pathBelow s.root (dir ++ [name]))) = .ok (.found p (.file bytes))) :
    tree.at? p = some (.file bytes) := by
  rw [targetOf_pathBelow hroot h.proper h.plain] at hlocate
  have hplaced : ∀ o, last.Leads s.outputRoot o → p = o ++ (dir ++ [name]) := fun o hout =>
    hlast.sound.place_of_locate hlocate hout ((ha.unlinked o hout).mono hlast.grown)
      (Path.steps_pathBelow ha.named (by simp) h.proper) h.proper
  refine (hgrown.file_iff ?_ bytes).1 (hlast.sound.landed_path hlocate).2.node
  rintro (⟨o, dir', name', outcome, hout, -, -, hextract, houtput⟩ | hnoted)
  · -- it would be the counterpart of a script that was treated
    rw [hplaced o hout] at houtput
    refine not_output h.ending (fun hsame => ?_) houtput
    rw [← hsame] at hextract
    exact hfailed outcome hextract
  · obtain ⟨o, hout, -⟩ := id hnoted
    rw [hplaced o hout] at hnoted
    exact h.not_noted o hnoted

theorem bytes_of_text {text : List Char} (h : tree.text file = .ok text) : tree.read file = .ok (Disk.bytesOf text) := by
  cases hbytes : tree.read file with
  | error e =>
    rw [FileTree.text, hbytes] at h
    cases h
  | ok bytes =>
    rw [FileTree.text, hbytes] at h
    rw [Disk.bytesOf_of_textOf h]

/-- **What stands in a separate output folder for a script.**  After a reported run in which the disk did not fail, a
script that was extracted has its new form there, and one that was left alone, with problems or without, has a copy with
the same bytes.  For one that could not be treated nothing is written: a file that its path finds there stood there
before. -/
theorem counterpart_of_extraction (tree next : FileTree) (working : String) (args : ProcessArguments) (c : Context)
    (result : CommandResult) (notes : String) (hsound : tree.Sound)
    (hload : (tree.doing ((loadContext working args.root args.verbose).run.run "")).1.1 = .ok c)
    (hrun : tree.doing ((run working args).run.run "") = ((.ok result, notes), next))
    (haside : Aside (settingsOf args c) tree next (scanned c tree))
    (hdisk : ∀ failure, .error failure ∈ (tree.doing (treatAll (settingsOf args c) (scanned c tree))).1 →
      failure.ofDisk = false) (file : String) (hfile : file ∈ scanned c tree) :
    (∀ w, extraction (settingsOf args c) tree file = .ok (.extracted w) →
      next.read (targetOf (settingsOf args c) file) = .ok (Disk.bytesOf w.contents)) ∧
    (∀ outcome, extraction (settingsOf args c) tree file = .ok outcome → (∀ w, outcome ≠ .extracted w) →
      next.read (targetOf (settingsOf args c) file) = tree.read file) ∧
    ∀ failure, extraction (settingsOf args c) tree file = .error failure → ∀ p bytes,
      next.locate true (targetOf (settingsOf args c) file) = .ok (.found p (.file bytes)) →
        tree.at? p = some (.file bytes) := by
  obtain ⟨r, hroot⟩ := hsound.leads_of_kind? (Command.doing_loadContext hload).2
  have hlisted : ∀ f ∈ scanned c tree, ∃ dir name, f = pathBelow c.root (dir ++ [name]) ∧ Listed tree r dir name :=
    fun f hf => listed_of_scanned hsound hroot hf (haside.plain f hf)
  have hnodup := nodup_scanned hsound hroot
  obtain ⟨outcomes, mid, hfiles, -, hnext⟩ := doing_run hload hrun
  rw [doing_processFiles_eq] at hfiles
  obtain ⟨-, hfiles⟩ := Prod.mk.inj hfiles
  change tree.Leads (settingsOf args c).root r at hroot
  change ∀ f ∈ scanned c tree, ∃ dir name, f = pathBelow (settingsOf args c).root _ ∧ _ at hlisted
  generalize settingsOf args c = s at *
  generalize scanned c tree = files at *
  have hmid : tree.Evolves mid := hfiles ▸ evolves_treatAll hsound s files
  have hlast : mid.Evolves next := by
    rcases hnext with ⟨-, rfl⟩ | ⟨id, -, hwrite⟩
    · exact hmid.sound.evolves
    · have hevolves := evolves_writeManifest hmid.sound s id (manifestOf outcomes)
      rwa [hwrite] at hevolves
  have hmanifest : FileTree.Grown (Noted s next) mid next := by
    rcases hnext with ⟨-, rfl⟩ | ⟨id, -, hwrite⟩
    · exact .refl _ _
    · exact haside.doing_writeManifest hmid hwrite hlast.sound.evolves
  have htreated : tree.doing (treatAll s files) = ((tree.doing (treatAll s files)).1, mid) := Prod.ext rfl hfiles
  have hplace := haside.inPlace_eq_false hlast.sound (hroot.mono (hmid.trans hlast).grown.keeps)
  obtain ⟨hgrown, hthere⟩ := haside.doing_treatAll hplace hroot hnodup hlisted hsound.evolves (fun _ _ _ _ => rfl)
    htreated hdisk hlast
  obtain ⟨dir, name, rfl, h⟩ := hlisted file hfile
  have hread : ∀ text outcome, tree.text (pathBelow s.root (dir ++ [name])) = .ok text →
      extraction s tree (pathBelow s.root (dir ++ [name])) = .ok outcome →
      next.read (targetOf s (pathBelow s.root (dir ++ [name]))) = .ok (Disk.bytesOf (outcome.contents?.getD text)) := by
    intro text outcome htext hextract
    obtain ⟨o, hout, hcounterpart⟩ := hthere dir name text outcome hfile h htext hextract
    rw [targetOf_pathBelow hroot.1 h.proper h.plain]
    exact read_output hlast.sound hout h.proper ((hmanifest.file_iff (h.not_noted o) _).2 hcounterpart)
  refine ⟨fun w hextract => ?_, fun outcome hextract hleft => ?_, fun failure hfailed p bytes hlocate => ?_⟩
  · obtain ⟨text, htext, -⟩ := extraction_eq_ok_iff.1 hextract
    exact hread text _ htext hextract
  · obtain ⟨text, htext, -⟩ := extraction_eq_ok_iff.1 hextract
    rw [hread text outcome htext hextract, bytes_of_text htext]
    cases outcome with
    | extracted w => exact absurd rfl (hleft w)
    | unchanged => rfl
    | rejected problems => rfl
  · refine haside.file_before hroot.1 h (hmid.trans hlast) (hgrown.trans hmanifest) (fun outcome hok => ?_) hlocate
    cases hfailed.symm.trans hok

/-- A script that cannot be parsed has no counterpart in the output folder. -/
theorem counterpart_of_extraction_unparsed :
    let tree : FileTree := ⟨[(["w"], .folder), (["w", "out"], .folder),
      (["w", "out", "a.js"], .file (Disk.bytesOf "(".toList))]⟩
    let args : ProcessArguments := ⟨some "/w/out", some "/w/dist", some "x", none, false, false⟩
    let c : Context := ⟨Config.standard, "/w", "/w", "/w/out"⟩
    let next := (tree.doing ((run "/w" args).run.run "")).2
    tree.Sound ∧ (tree.doing ((loadContext "/w" args.root args.verbose).run.run "")).1.1 = .ok c ∧
      Aside (settingsOf args c) tree next (scanned c tree) ∧
      (∀ failure, .error failure ∈ (tree.doing (treatAll (settingsOf args c) (scanned c tree))).1 →
        failure.ofDisk = false) ∧
      (∃ result notes, tree.doing ((run "/w" args).run.run "") = ((.ok result, notes), next)) ∧
      "/w/out/a.js" ∈ scanned c tree ∧ tree.text "/w/out/a.js" = .ok "(".toList ∧
      (∀ p bytes, next.locate true "/w/dist/a.js" = .ok (.found p (.file bytes)) → tree.at? p = some (.file bytes)) ∧
      next.kind? "/w/dist" = some .folder ∧ next.kind? "/w/dist/a.js" = none := by
  intro tree args c next
  have hscanned : scanned c tree = ["/w/out/a.js"] := by decide +kernel
  have hsound : tree.Sound := by
    refine ⟨by decide, by decide, ?_⟩
    intro e he
    simp only [tree, List.mem_cons, List.not_mem_nil, or_false] at he
    rcases he with rfl | rfl | rfl <;> rfl
  have hload : (tree.doing ((loadContext "/w" args.root args.verbose).run.run "")).1.1 = .ok c :=
    eq_ok_of_toOption (by decide +kernel)
  have hroot : (next.locate true "/w/out").toOption.map (fun l => (FileTree.spot l).1) = some ["w", "out"] := by
    decide +kernel
  have hout : (next.locate true "/w/dist").toOption.map (fun l => (FileTree.spot l).1) = some ["w", "dist"] := by
    decide +kernel
  have haside : Aside (settingsOf args c) tree next (scanned c tree) := by
    refine ⟨by decide, by rw [hscanned]; decide, fun r o hr ho => ?_, fun o ho p target _ hp => ?_⟩
    · rw [show next.locate true "/w/out" = _ from hr.locate] at hroot
      rw [show next.locate true "/w/dist" = _ from ho.locate] at hout
      obtain rfl : r = ["w", "out"] := Option.some.inj hroot
      obtain rfl : o = ["w", "dist"] := Option.some.inj hout
      decide
    · have hne : p ≠ [] := by
        rintro rfl
        cases hp
      simpa [tree] using FileTree.mem_of_at? hp hne
  obtain ⟨failure, hextract, hfine⟩ : ∃ failure,
      extraction (settingsOf args c) tree "/w/out/a.js" = .error failure ∧ failure.ofDisk = false := by
    have hfails : (match extraction (settingsOf args c) tree "/w/out/a.js" with
      | .error failure => failure.ofDisk
      | .ok _ => true) = false := by decide +kernel
    cases hextract : extraction (settingsOf args c) tree "/w/out/a.js" with
    | error failure =>
      rw [hextract] at hfails
      exact ⟨failure, rfl, hfails⟩
    | ok outcome =>
      rw [hextract] at hfails
      cases hfails
  have hdisk : ∀ failure, .error failure ∈ (tree.doing (treatAll (settingsOf args c) (scanned c tree))).1 →
      failure.ofDisk = false := by
    rw [hscanned, doing_treatAll_cons, doing_treat_unextracted hextract]
    intro failure' hmem
    cases List.mem_singleton.1 hmem
    exact hfine
  have hok : (tree.doing ((run "/w" args).run.run "")).1.1.isOk = true := by decide +kernel
  have hrun : ∃ result notes, tree.doing ((run "/w" args).run.run "") = ((.ok result, notes), next) := by
    cases hreported : (tree.doing ((run "/w" args).run.run "")).1.1 with
    | error failure =>
      rw [hreported] at hok
      cases hok
    | ok result => exact ⟨result, _, Prod.ext (Prod.ext hreported rfl) rfl⟩
  have hmem : "/w/out/a.js" ∈ scanned c tree := by
    rw [hscanned]
    decide
  refine ⟨hsound, hload, haside, hdisk, hrun, hmem, eq_ok_of_toOption (by decide +kernel), ?_, by decide +kernel,
    by decide +kernel⟩
  obtain ⟨result, notes, hrun⟩ := hrun
  have htarget : targetOf (settingsOf args c) "/w/out/a.js" = "/w/dist/a.js" := by decide +kernel
  have hnothing := (counterpart_of_extraction tree next "/w" args c result notes hsound hload hrun haside hdisk
    "/w/out/a.js" hmem).2.2 failure hextract
  rw [htarget] at hnothing
  exact hnothing

end Process
end Localizer
