import Localizer.Commands.Process
import Localizer.Proofs.Commands
import Localizer.Proofs.Places
/-!
# Treatment — what treating a script in place does to a tree

`Process.extraction` is what becomes of a script as it stands in a tree.  A script that is not extracted leaves the tree
as it is (`doing_treat_left`).  One that is extracted is written first and the files beside it after it, so it is there in
its new form whether these can be written or not (`Scene.doing_processFile_extracted`).
-/
namespace Localizer

namespace Process

open FileTree (pathBelow doing_pure doing_bind doing_readText doing_change doing_change_error)

/-- **Where a script goes.** -/
def targetOf (s : Settings) (file : String) : String := Path.join s.outputRoot (Path.relativeTo s.root file)

/-- **What a script is treated with** if this is the text of its source map. -/
def optionsOf (s : Settings) (file : String) (map : Option (List Char)) : ExtractionOptions where
  relative := if s.relativePaths then some ((Path.fileName? file).getD "").toList else none
  sourceMap := map.map String.ofList
  moduleName := s.moduleName

/-- **What extracting makes of a script** as it stands in a tree. -/
def extraction (s : Settings) (tree : FileTree) (file : String) : Except Failure Outcome := do
  let text ← (tree.text file).mapError (.reading (Path.relativeTo s.base file))
  let map := (tree.text (file ++ ".map")).toOption
  (extract (Path.relativeTo s.root file) text (optionsOf s file map)).mapError .extracting

/-- **The messages of a script in its new form.** -/
def bundleOf (s : Settings) (file : String) (w : Extracted) : BundleFile :=
  ⟨w.bundle, stripExtension (Path.relativeTo s.root file)⟩

variable {s : Settings} {file : String} {tree next : FileTree} {w : Extracted} {failure : Failure}

section Plan

variable {text : List Char} {map : Option (List Char)}

theorem plan_failed {e : ExtractionError}
    (h : extract (Path.relativeTo s.root file) text (optionsOf s file map) = .error e) :
    plan s file text map = .error (.extracting e) := by
  simp only [plan, ← optionsOf.eq_1, h]

/-- **A script that is not extracted is copied.** -/
theorem plan_copied {outcome : Outcome}
    (h : extract (Path.relativeTo s.root file) text (optionsOf s file map) = .ok outcome)
    (hleft : ∀ w, outcome ≠ .extracted w) :
    ∃ o, plan s file text map = .ok (copySteps s (targetOf s file) text map, o) ∧ o.bundle = none := by
  simp only [plan, ← optionsOf.eq_1, h]
  cases outcome with
  | unchanged => exact ⟨_, rfl, rfl⟩
  | rejected problems => exact ⟨_, rfl, rfl⟩
  | extracted w => exact absurd rfl (hleft w)

/-- **In place there is nothing to do for a script that is not extracted.** -/
theorem plan_left (hplace : s.inPlace = true) {outcome : Outcome}
    (h : extract (Path.relativeTo s.root file) text (optionsOf s file map) = .ok outcome)
    (hleft : ∀ w, outcome ≠ .extracted w) : ∃ o, plan s file text map = .ok ([], o) ∧ o.bundle = none := by
  obtain ⟨o, ho, hnone⟩ := plan_copied h hleft
  rw [copySteps, if_pos hplace] at ho
  exact ⟨o, ho, hnone⟩

theorem plan_extracted (h : extract (Path.relativeTo s.root file) text (optionsOf s file map) = .ok (.extracted w)) :
    plan s file text map = .ok (resultSteps (targetOf s file) w (bundleOf s file w), ⟨[], some (bundleOf s file w)⟩) := by
  simp only [plan, ← optionsOf.eq_1, h]
  rfl

theorem plan_about {steps : List Step} {outcome : FileOutcome} (h : plan s file text map = .ok (steps, outcome)) :
    ∀ d ∈ outcome.diagnostics, d.file = Path.relativeTo s.base file := by
  rw [plan] at h
  split at h
  · cases h
  · obtain ⟨-, rfl⟩ := Prod.mk.inj (Except.ok.inj h)
    intro d hd
    obtain ⟨problem, -, rfl⟩ := List.mem_map.1 hd
    rfl
  · obtain ⟨-, rfl⟩ := Prod.mk.inj (Except.ok.inj h)
    exact fun d hd => absurd hd List.not_mem_nil
  · obtain ⟨-, rfl⟩ := Prod.mk.inj (Except.ok.inj h)
    exact fun d hd => absurd hd List.not_mem_nil

end Plan

/-- **What is told of a script**, whether it was treated or not. -/
def told (s : Settings) (file : String) : Except Failure FileOutcome → FileOutcome
  | .ok outcome => outcome
  | .error failure => ⟨[Diagnostic.ofFile .error (Path.relativeTo s.base file) failure.message], none⟩

theorem doing_processFile {result : Except Failure FileOutcome} (h : tree.doing (treat s file) = (result, next)) :
    tree.doing (processFile s file) = (told s file result, next) := by
  rw [processFile, doing_bind h]
  cases result <;> rfl

theorem doing_treat_unread {e : FileError} (h : tree.text file = .error e) :
    tree.doing (treat s file) = (.error (.reading (Path.relativeTo s.base file) e), tree) := by
  rw [treat, doing_bind (doing_readText tree file), h]
  rfl

theorem doing_treat_unplanned {text : List Char} (h : tree.text file = .ok text)
    (hplan : plan s file text (tree.text (file ++ ".map")).toOption = .error failure) :
    tree.doing (treat s file) = (.error failure, tree) := by
  rw [treat, doing_bind (doing_readText tree file), h]
  simp only
  rw [doing_bind (doing_readText tree (file ++ ".map")), hplan]
  rfl

/-- **A plan carried out.** -/
theorem doing_treat {text : List Char} (h : tree.text file = .ok text) {steps : List Step} {outcome : FileOutcome}
    (hplan : plan s file text (tree.text (file ++ ".map")).toOption = .ok (steps, outcome)) {done : Except Failure Unit}
    (hdone : tree.doing (performAll steps) = (done, next)) :
    tree.doing (treat s file) = (done.map fun _ => outcome, next) := by
  rw [treat, doing_bind (doing_readText tree file), h]
  simp only
  rw [doing_bind (doing_readText tree (file ++ ".map")), hplan]
  simp only
  rw [doing_bind hdone]
  cases done <;> rfl

/-- **What is told of a script names it.** -/
theorem processFile_about (s : Settings) (file : String) (tree : FileTree) :
    ∀ d ∈ (tree.doing (processFile s file)).1.diagnostics, d.file = Path.relativeTo s.base file := by
  have hfailed : ∀ (failure : Failure), ∀ d ∈ (told s file (.error failure)).diagnostics,
      d.file = Path.relativeTo s.base file := fun failure d hd => by rw [List.mem_singleton.1 hd]; rfl
  cases htext : tree.text file with
  | error e =>
    rw [doing_processFile (doing_treat_unread htext)]
    exact hfailed _
  | ok text =>
    cases hplan : plan s file text (tree.text (file ++ ".map")).toOption with
    | error failure =>
      rw [doing_processFile (doing_treat_unplanned htext hplan)]
      exact hfailed _
    | ok planned =>
      obtain ⟨steps, outcome⟩ := planned
      cases hdone : tree.doing (performAll steps) with
      | mk done next =>
        rw [doing_processFile (doing_treat htext hplan hdone)]
        cases done with
        | error failure => exact hfailed failure
        | ok => exact plan_about hplan

theorem extraction_eq_ok_iff {outcome : Outcome} :
    extraction s tree file = .ok outcome ↔ ∃ text, tree.text file = .ok text ∧
      extract (Path.relativeTo s.root file) text (optionsOf s file (tree.text (file ++ ".map")).toOption) = .ok outcome := by
  have hread : ∀ text, tree.text file = .ok text → extraction s tree file = (extract (Path.relativeTo s.root file) text
      (optionsOf s file (tree.text (file ++ ".map")).toOption)).mapError .extracting := by
    intro text htext
    rw [extraction, htext]
    rfl
  constructor
  · intro h
    cases htext : tree.text file with
    | error e =>
      rw [extraction, htext] at h
      cases h
    | ok text =>
      rw [hread text htext] at h
      refine ⟨text, rfl, ?_⟩
      cases hextract : extract (Path.relativeTo s.root file) text
          (optionsOf s file (tree.text (file ++ ".map")).toOption) with
      | error e =>
        rw [hextract] at h
        cases h
      | ok outcome' =>
        rw [hextract] at h
        cases h
        rfl
  · rintro ⟨text, htext, hextract⟩
    rw [hread text htext, hextract]
    rfl

/-- **A script that is not extracted leaves the tree as it is**, whatever is told of it, and has no messages. -/
theorem doing_treat_left (hplace : s.inPlace = true) (h : ∀ w, extraction s tree file ≠ .ok (.extracted w)) :
    ∃ result, tree.doing (treat s file) = (result, tree) ∧ (told s file result).bundle = none := by
  cases htext : tree.text file with
  | error e => exact ⟨_, doing_treat_unread htext, rfl⟩
  | ok text =>
    cases hextract : extract (Path.relativeTo s.root file) text
        (optionsOf s file (tree.text (file ++ ".map")).toOption) with
    | error e => exact ⟨_, doing_treat_unplanned htext (plan_failed hextract), rfl⟩
    | ok outcome =>
      have hleft : ∀ w, outcome ≠ .extracted w := fun w hw =>
        h w (extraction_eq_ok_iff.2 ⟨text, htext, hw ▸ hextract⟩)
      obtain ⟨o, ho, hnone⟩ := plan_left hplace hextract hleft
      exact ⟨_, doing_treat htext ho (doing_pure ..), hnone⟩

/-! ## Steps on the disk -/

variable {path base : String} {p r dir : Place} {step : Step} {steps : List Step}

theorem doing_performAll_cons (h : tree.doing (perform step) = (.ok (), next)) :
    tree.doing (performAll (step :: steps)) = next.doing (performAll steps) := by
  rw [performAll, doing_bind h]

theorem doing_performAll_stop (h : tree.doing (perform step) = (.error failure, next)) :
    tree.doing (performAll (step :: steps)) = (.error failure, next) := by
  rw [performAll, doing_bind h]
  rfl

theorem doing_perform_folder (h : tree.Leads path r) : tree.doing (perform (.folder path)) = (.ok (), tree) := by
  have hmake : tree.doing (Disk.makeFolders path) = (.ok (), tree) := doing_change h.makeFolders
  rw [perform, doing_bind hmake]
  rfl

theorem doing_writeText (h : tree.locate true path = .ok (tree.landing p)) (hfree : tree.Free p) (text : List Char) :
    tree.doing (Disk.writeText path text) = (.ok (), tree.put p (.file (Disk.bytesOf text))) :=
  doing_change ((FileTree.write_eq h hfree.2 _).2 hfree.1)

theorem doing_writeText_folder (h : tree.locate true path = .ok (tree.landing p)) (hfolder : tree.at? p = some .folder)
    (text : List Char) : tree.doing (Disk.writeText path text) = (.error .isFolder, tree) :=
  doing_change_error ((FileTree.write_eq h (by simp [hfolder]) _).1 hfolder)

/-- **What is done with texts in a folder**: they go to these places. -/
def placed (r dir : Place) (texts : List (String × List Char)) : List (Place × List Char) :=
  texts.map fun x => (r ++ (dir ++ [x.1]), x.2)

/-- **Whether all texts get to their places.** -/
def verdict (tree : FileTree) (ws : List (Place × List Char)) : Except Failure Unit :=
  if ws.all fun w => !tree.isFolder w.1 then .ok () else .error (.file .isFolder)

theorem verdict_eq_ok_iff {ws : List (Place × List Char)} :
    verdict tree ws = .ok () ↔ ∀ w ∈ ws, tree.at? w.1 ≠ some .folder := by
  have hall : (ws.all fun w => !tree.isFolder w.1) = true ↔ ∀ w ∈ ws, tree.at? w.1 ≠ some .folder := by
    rw [List.all_eq_true]
    simp only [Bool.not_eq_true', ← Bool.not_eq_true, FileTree.isFolder_iff, ne_eq]
  rw [← hall, verdict]
  cases ws.all fun w => !tree.isFolder w.1 <;> simp

theorem verdict_cons {w : Place × List Char} {ws : List (Place × List Char)} (h : tree.isFolder w.1 = false) :
    verdict tree (w :: ws) = verdict tree ws := by
  rw [verdict, verdict, List.all_cons, h]
  rfl

theorem verdict_congr {written : Place → Prop} (h : FileTree.Amended written tree next) (ws : List (Place × List Char)) :
    verdict next ws = verdict tree ws := by
  rw [verdict, verdict, funext fun w : Place × List Char => congrArg not (h.isFolder_eq w.1)]

/-- **Writing side files in a folder** goes well up to the first with a folder in its place. -/
theorem doing_performAll_placed {sides : List (String × List Char)} (hbase : tree.Leads base r) (hopen : tree.Opened r dir)
    (hnames : ∀ x ∈ sides, ∀ n ∈ dir ++ [x.1], Path.Proper n)
    (hlink : ∀ x ∈ sides, ∀ target, tree.at? (r ++ (dir ++ [x.1])) ≠ some (.link target)) :
    tree.doing (performAll (sides.map fun x => .sideFile (pathBelow base (dir ++ [x.1])) x.2)) =
      (verdict tree (placed r dir sides), tree.store (tree.admitted (placed r dir sides))) := by
  induction sides generalizing tree with
  | nil => rfl
  | cons x sides ih =>
    have hlinkx := hlink x (List.mem_cons_self ..)
    have hlocate := FileTree.locate_pathBelow true hbase hopen (hnames x (List.mem_cons_self ..)) (Or.inr hlinkx)
    rw [List.map_cons, placed, List.map_cons, ← placed]
    by_cases hfolder : tree.at? (r ++ (dir ++ [x.1])) = some .folder
    · have hstep : tree.doing (perform (.sideFile (pathBelow base (dir ++ [x.1])) x.2)) =
          (.error (.file .isFolder), tree) := by
        rw [perform, doing_bind (doing_writeText_folder hlocate hfolder x.2)]
        rfl
      rw [doing_performAll_stop hstep]
      simp [verdict, FileTree.admitted, FileTree.isFolder_iff.2 hfolder, FileTree.store]
    · have hstep : tree.doing (perform (.sideFile (pathBelow base (dir ++ [x.1])) x.2)) =
          (.ok (), tree.put (r ++ (dir ++ [x.1])) (.file (Disk.bytesOf x.2))) := by
        rw [perform, doing_bind (doing_writeText hlocate ⟨hfolder, hlinkx⟩ x.2)]
        rfl
      have hput := FileTree.amended_put (by simp) ⟨hfolder, hlinkx⟩ (Disk.bytesOf x.2)
      have hclear : tree.isFolder (r ++ (dir ++ [x.1])) = false := by
        rwa [← Bool.not_eq_true, FileTree.isFolder_iff]
      rw [doing_performAll_cons hstep, ih (hbase.mono hput.keeps) (hopen.mono hput.keeps)
        (fun y hy => hnames y (List.mem_cons_of_mem _ hy))
        (fun y hy target htarget => hlink y (List.mem_cons_of_mem _ hy) target ((hput.link_iff _ _).1 htarget))]
      rw [verdict_cons hclear, verdict_congr hput, FileTree.admitted_cons hclear, hput.admitted_eq]
      rfl

theorem placed_nil (r dir : Place) : placed r dir [] = [] := rfl

theorem placed_cons (r dir : Place) (x : String × List Char) (xs : List (String × List Char)) :
    placed r dir (x :: xs) = (r ++ (dir ++ [x.1]), x.2) :: placed r dir xs := rfl

theorem placed_append (r dir : Place) (xs ys : List (String × List Char)) :
    placed r dir (xs ++ ys) = placed r dir xs ++ placed r dir ys := List.map_append

/-- **Writing a file in a folder and others beside it** goes well up to the first with a folder in its place. -/
theorem doing_performAll_texts {x : String × List Char} {sides : List (String × List Char)} (hbase : tree.Leads base r)
    (hopen : tree.Opened r dir) (hnames : ∀ y ∈ x :: sides, ∀ n ∈ dir ++ [y.1], Path.Proper n)
    (hlink : ∀ y ∈ x :: sides, ∀ target, tree.at? (r ++ (dir ++ [y.1])) ≠ some (.link target)) :
    tree.doing (performAll (.mainFile (pathBelow base (dir ++ [x.1])) x.2 ::
        sides.map fun y => .sideFile (pathBelow base (dir ++ [y.1])) y.2)) =
      (if tree.isFolder (r ++ (dir ++ [x.1])) then .error (.writing (pathBelow base (dir ++ [x.1])) .isFolder)
        else verdict tree (placed r dir (x :: sides)), tree.store (tree.admitted (placed r dir (x :: sides)))) := by
  have hlinkx := hlink x (List.mem_cons_self ..)
  have hlocate := FileTree.locate_pathBelow true hbase hopen (hnames x (List.mem_cons_self ..)) (Or.inr hlinkx)
  rw [placed_cons]
  by_cases hfolder : tree.at? (r ++ (dir ++ [x.1])) = some .folder
  · have hstep : tree.doing (perform (.mainFile (pathBelow base (dir ++ [x.1])) x.2)) =
        (.error (.writing (pathBelow base (dir ++ [x.1])) .isFolder), tree) := by
      rw [perform, doing_bind (doing_writeText_folder hlocate hfolder x.2)]
      rfl
    rw [doing_performAll_stop hstep]
    simp [FileTree.admitted, FileTree.isFolder_iff.2 hfolder, FileTree.store]
  · have hstep : tree.doing (perform (.mainFile (pathBelow base (dir ++ [x.1])) x.2)) =
        (.ok (), tree.put (r ++ (dir ++ [x.1])) (.file (Disk.bytesOf x.2))) := by
      rw [perform, doing_bind (doing_writeText hlocate ⟨hfolder, hlinkx⟩ x.2)]
      rfl
    have hput := FileTree.amended_put (by simp) ⟨hfolder, hlinkx⟩ (Disk.bytesOf x.2)
    have hclear : tree.isFolder (r ++ (dir ++ [x.1])) = false := by
      rwa [← Bool.not_eq_true, FileTree.isFolder_iff]
    rw [doing_performAll_cons hstep, doing_performAll_placed (hbase.mono hput.keeps) (hopen.mono hput.keeps)
      (fun y hy => hnames y (List.mem_cons_of_mem _ hy))
      (fun y hy target htarget => hlink y (List.mem_cons_of_mem _ hy) target ((hput.link_iff _ _).1 htarget)),
      verdict_cons hclear, verdict_congr hput, FileTree.admitted_cons hclear, hput.admitted_eq, hclear]
    rfl

theorem amended_placed {xs : List (String × List Char)}
    (hlink : ∀ x ∈ xs, ∀ target, tree.at? (r ++ (dir ++ [x.1])) ≠ some (.link target)) :
    FileTree.Amended (fun p => ∃ x ∈ xs, p = r ++ (dir ++ [x.1])) tree (tree.store (tree.admitted (placed r dir xs))) := by
  refine (FileTree.amended_store ?_).weaken ?_
  · intro w hw
    obtain ⟨x, hx, rfl⟩ := List.mem_map.1 (FileTree.mem_admitted hw).1
    exact ⟨by simp, (FileTree.mem_admitted hw).2, hlink x hx⟩
  · rintro p ⟨w, hw, rfl⟩
    obtain ⟨x, hx, rfl⟩ := List.mem_map.1 (FileTree.mem_admitted hw).1
    exact ⟨x, hx, rfl⟩

/-- **The first text is there afterwards** if no folder stood in its place and no other text has its name. -/
theorem at?_placed_first {x : String × List Char} {xs : List (String × List Char)}
    (hclear : tree.isFolder (r ++ (dir ++ [x.1])) = false) (hname : x.1 ∉ xs.map (·.1)) :
    (tree.store (tree.admitted (placed r dir (x :: xs)))).at? (r ++ (dir ++ [x.1])) =
      some (.file (Disk.bytesOf x.2)) := by
  have hne : ∀ v ∈ tree.admitted (placed r dir (x :: xs)), ∃ y ∈ x :: xs, v = (r ++ (dir ++ [y.1]), y.2) := by
    intro v hv
    obtain ⟨y, hy, rfl⟩ := List.mem_map.1 (FileTree.mem_admitted hv).1
    exact ⟨y, hy, rfl⟩
  have hfirst : (r ++ (dir ++ [x.1]), x.2) ∈ tree.admitted (placed r dir (x :: xs)) := by
    rw [placed_cons, FileTree.admitted_cons hclear]
    exact List.mem_cons_self ..
  refine FileTree.at?_store_of_mem (fun v hv => ?_) hfirst fun v hv hsame => ?_
  · obtain ⟨y, -, rfl⟩ := hne v hv
    simp
  · obtain ⟨y, hy, rfl⟩ := hne v hv
    rcases List.mem_cons.1 hy with rfl | hy
    · rfl
    · have hyx : y.1 = x.1 := by simpa using hsame
      exact absurd (hyx ▸ List.mem_map_of_mem hy) hname

/-! ## A script in its place -/

/-- **The names of the files written beside a script.** -/
def sideNames (name : String) (mapped : Bool) : List String :=
  (if mapped then [name ++ ".map"] else []) ++
    [(Path.splitName name).1 ++ ".nls.json", (Path.splitName name).1 ++ bundleSuffix]

/-- **The files written beside a script.** -/
def sidesOf (name : String) (w : Extracted) (f : BundleFile) : List (String × List Char) :=
  (w.sourceMap.map fun t => (name ++ ".map", t.toList)).toList ++
    [((Path.splitName name).1 ++ ".nls.json", (Json.ofStrings w.bundle.messages).compact.toList),
      ((Path.splitName name).1 ++ bundleSuffix, f.toJson.pretty.toList)]

theorem map_sidesOf (name : String) (w : Extracted) (f : BundleFile) :
    (sidesOf name w f).map (·.1) = sideNames name w.sourceMap.isSome := by
  cases hmap : w.sourceMap <;> simp [sidesOf, sideNames, hmap]

theorem mem_sideNames {name n : String} {mapped : Bool} (h : n ∈ sideNames name mapped) : n ∈ sideNames name true := by
  cases mapped with
  | true => exact h
  | false => exact List.mem_append_right _ h

theorem proper_sideNames {name n : String} (hname : '/' ∉ name.toList) (h : n ∈ sideNames name true) : Path.Proper n := by
  have hstem := Path.slash_not_mem_stem hname
  simp only [sideNames, if_true, List.mem_append, List.mem_cons, List.not_mem_nil, or_false] at h
  rcases h with rfl | rfl | rfl
  · exact Path.proper_append hname (by decide) (by decide)
  · exact Path.proper_append hstem (by decide) (by decide)
  · exact Path.proper_append hstem (by decide) (by decide)

theorem proper_side {name n : String} (h : ∀ x ∈ dir ++ [name], Path.Proper x) (hn : n ∈ sideNames name true) :
    ∀ x ∈ dir ++ [n], Path.Proper x := by
  intro x hx
  rcases List.mem_append.1 hx with hx | hx
  · exact h x (List.mem_append_left _ hx)
  · exact List.mem_singleton.1 hx ▸ proper_sideNames (h name (by simp)).2.2 hn

theorem sidePath_eq {name : String} (hbase : base ≠ "") (h : ∀ x ∈ dir ++ [name], Path.Proper x) :
    pathBelow base (dir ++ [name]) ++ ".map" = pathBelow base (dir ++ [name ++ ".map"]) ∧
      Path.withoutExtension (pathBelow base (dir ++ [name])) ++ ".nls.json" =
        pathBelow base (dir ++ [(Path.splitName name).1 ++ ".nls.json"]) ∧
      Path.withoutExtension (pathBelow base (dir ++ [name])) ++ bundleSuffix =
        pathBelow base (dir ++ [(Path.splitName name).1 ++ bundleSuffix]) :=
  ⟨Path.pathBelow_append hbase h _ (proper_side h (by simp [sideNames])),
    Path.withoutExtension_append hbase h _ (proper_side h (by simp [sideNames])),
    Path.withoutExtension_append hbase h _ (proper_side h (by simp [sideNames]))⟩

/-- **The steps for a script that is extracted**: the folder, the script and what goes beside it. -/
theorem resultSteps_eq {name parent : String} (hbase : base ≠ "") (h : ∀ x ∈ dir ++ [name], Path.Proper x)
    (hparent : Path.parent? (pathBelow base (dir ++ [name])) = some parent) (w : Extracted) (f : BundleFile) :
    resultSteps (pathBelow base (dir ++ [name])) w f =
      .folder parent :: .mainFile (pathBelow base (dir ++ [name])) w.contents ::
        (sidesOf name w f).map fun x => .sideFile (pathBelow base (dir ++ [x.1])) x.2 := by
  obtain ⟨hmap, hmessages, hbundle⟩ := sidePath_eq hbase h
  cases hsource : w.sourceMap <;>
    simp [resultSteps, writeSteps, sidesOf, hparent, hmap, hmessages, hbundle, hsource]

theorem targetOf_pathBelow {name : String} (hroot : s.root ≠ "") (h : ∀ x ∈ dir ++ [name], Path.Proper x)
    (hplain : '\\' ∉ (Path.joinSegments (dir ++ [name])).toList) :
    targetOf s (pathBelow s.root (dir ++ [name])) = pathBelow s.outputRoot (dir ++ [name]) := by
  rw [targetOf, Path.relativeTo_pathBelow hroot (by simp) h hplain]
  rfl

/-- **A run in place**: scripts are read and written below the same folder. -/
structure Scene (s : Settings) (tree : FileTree) (r : Place) : Prop where
  inPlace : s.inPlace = true
  root : tree.Leads s.root r
  output : tree.Leads s.outputRoot r

/-- **A script in a folder**, with a path that means what it says. -/
structure Listed (tree : FileTree) (r dir : Place) (name : String) : Prop where
  proper : ∀ n ∈ dir ++ [name], Path.Proper n
  plain : '\\' ∉ (Path.joinSegments (dir ++ [name])).toList
  ending : name.toList.getLast? = some 's' ∨ name.toList.getLast? = some 'x'
  opened : tree.Opened r dir
  file : ∃ contents, tree.at? (r ++ (dir ++ [name])) = some (.file contents)

/-- **A script in a folder**, beside which no link stands in the way. -/
structure Regular (tree : FileTree) (r dir : Place) (name : String) : Prop extends Listed tree r dir name where
  unlinked : ∀ n ∈ sideNames name true, ∀ target, tree.at? (r ++ (dir ++ [n])) ≠ some (.link target)

variable {name : String} {written : Place → Prop}

theorem Listed.locate (h : Listed tree r dir name) {root : String} (hroot : tree.Leads root r) :
    tree.locate true (pathBelow root (dir ++ [name])) = .ok (tree.landing (r ++ (dir ++ [name]))) := by
  obtain ⟨contents, hcontents⟩ := h.file
  exact FileTree.locate_pathBelow true hroot h.opened h.proper (Or.inr (by simp [hcontents]))

theorem Listed.not_folder (h : Listed tree r dir name) : tree.isFolder (r ++ (dir ++ [name])) = false := by
  obtain ⟨contents, hcontents⟩ := h.file
  simp [FileTree.isFolder, hcontents]

theorem Scene.mono (h : Scene s tree r) (hkeep : tree.Keeps next) : Scene s next r :=
  ⟨h.inPlace, h.root.mono hkeep, h.output.mono hkeep⟩

theorem Regular.mono (h : Regular tree r dir name) (hamended : FileTree.Amended written tree next) :
    Regular next r dir name where
  proper := h.proper
  plain := h.plain
  ending := h.ending
  opened := h.opened.mono hamended.keeps
  file := by
    rcases hamended (r ++ (dir ++ [name])) with heq | ⟨-, -, hfile⟩
    · rw [heq]
      exact h.file
    · exact hfile
  unlinked n hn target htarget := h.unlinked n hn target ((hamended.link_iff _ _).1 htarget)

theorem text_congr {path : String} (h : tree.locate true path = .ok (tree.landing p))
    (h' : next.locate true path = .ok (next.landing p)) (hsame : next.at? p = tree.at? p) :
    next.text path = tree.text path := by
  rw [FileTree.text, FileTree.text, FileTree.read_eq h, FileTree.read_eq h', hsame]

/-- **What is made of a script depends on the script and its map only.** -/
theorem Scene.extraction_congr (hs : Scene s tree r) (h : Regular tree r dir name) (hs' : Scene s next r)
    (h' : Regular next r dir name) (hscript : next.at? (r ++ (dir ++ [name])) = tree.at? (r ++ (dir ++ [name])))
    (hmap : next.at? (r ++ (dir ++ [name ++ ".map"])) = tree.at? (r ++ (dir ++ [name ++ ".map"]))) :
    extraction s next (pathBelow s.root (dir ++ [name])) =
      extraction s tree (pathBelow s.root (dir ++ [name])) := by
  have hmem : name ++ ".map" ∈ sideNames name true := by simp [sideNames]
  rw [extraction, extraction, Path.pathBelow_append hs.root.1 h.proper ".map" (proper_side h.proper hmem),
    text_congr (h.locate hs.root) (h'.locate hs'.root) hscript,
    text_congr (FileTree.locate_pathBelow true hs.root h.opened (proper_side h.proper hmem) (Or.inr (h.unlinked _ hmem)))
      (FileTree.locate_pathBelow true hs'.root h'.opened (proper_side h'.proper hmem) (Or.inr (h'.unlinked _ hmem))) hmap]

/-- **The places that a script's results go to.** -/
def Output (r dir : Place) (name : String) (p : Place) : Prop := ∃ n ∈ name :: sideNames name true, p = r ++ (dir ++ [n])

theorem getLast?_sideNames {n : String} (h : n ∈ sideNames name true) :
    n.toList.getLast? = some 'p' ∧ n = name ++ ".map" ∨ n.toList.getLast? = some 'n' := by
  simp only [sideNames, if_true, List.mem_append, List.mem_cons, List.not_mem_nil, or_false] at h
  rcases h with rfl | rfl | rfl <;> simp [bundleSuffix]

theorem ne_sideNames (hend : name.toList.getLast? = some 's' ∨ name.toList.getLast? = some 'x') {name' n : String}
    (hn : n ∈ sideNames name' true) : name ≠ n := by
  rintro rfl
  rcases getLast?_sideNames hn with ⟨hlast, -⟩ | hlast <;> rcases hend with hend | hend <;> rw [hlast] at hend <;> cases hend

/-- **No script is a result of another.** -/
theorem not_output (hend : name.toList.getLast? = some 's' ∨ name.toList.getLast? = some 'x') {dir' : Place}
    {name' : String} (hne : dir ++ [name] ≠ dir' ++ [name']) : ¬Output r dir' name' (r ++ (dir ++ [name])) := by
  rintro ⟨n, hn, heq⟩
  obtain ⟨rfl, hname⟩ := List.append_inj' (List.append_cancel_left heq) rfl
  obtain rfl : name = n := by simpa using hname
  rcases List.mem_cons.1 hn with rfl | hn
  · exact hne rfl
  · exact ne_sideNames hend hn rfl

/-- **An error is told of a script.** -/
def FileOutcome.Failed (outcome : FileOutcome) : Prop := ∃ d ∈ outcome.diagnostics, d.isError = true

theorem failed_told {done : Except Failure Unit} {bundle : Option BundleFile} :
    (told s file (done.map fun _ => ⟨[], bundle⟩)).Failed ↔ done ≠ .ok () := by
  cases done with
  | error failure => simp [told, FileOutcome.Failed, Except.map, Diagnostic.ofFile, Diagnostic.isError]
  | ok => simp [told, FileOutcome.Failed, Except.map]

/-- **The texts that go to the folder of a script that is extracted.** -/
def textsOf (s : Settings) (dir : Place) (name : String) (w : Extracted) : List (String × List Char) :=
  (name, w.contents) :: sidesOf name w (bundleOf s (pathBelow s.root (dir ++ [name])) w)

theorem mem_textsOf {x : String × List Char} (h : x ∈ textsOf s dir name w) : x.1 ∈ name :: sideNames name true := by
  rcases List.mem_cons.1 h with rfl | h
  · exact List.mem_cons_self ..
  · have hmem := List.mem_map_of_mem (f := Prod.fst) h
    rw [map_sidesOf] at hmem
    exact List.mem_cons_of_mem _ (mem_sideNames hmem)

theorem Regular.not_link (h : Regular tree r dir name) {n : String} (hn : n ∈ name :: sideNames name true)
    (target : String) : tree.at? (r ++ (dir ++ [n])) ≠ some (.link target) := by
  rcases List.mem_cons.1 hn with rfl | hn
  · obtain ⟨contents, hcontents⟩ := h.file
    simp [hcontents]
  · exact h.unlinked n hn target

theorem Regular.free_texts (h : Regular tree r dir name) {v : Place × List Char}
    (hv : v ∈ tree.admitted (placed r dir (textsOf s dir name w))) : v.1 ≠ [] ∧ tree.Free v.1 ∧ Output r dir name v.1 := by
  obtain ⟨hmem, hfolder⟩ := FileTree.mem_admitted hv
  obtain ⟨x, hx, rfl⟩ := List.mem_map.1 hmem
  exact ⟨by simp, ⟨hfolder, h.not_link (mem_textsOf hx)⟩, x.1, mem_textsOf hx, rfl⟩

/-- **A script that is extracted is written first and the files beside it after it**, up to the first with a folder in its
place. -/
theorem Scene.doing_processFile_texts (hs : Scene s tree r) (h : Regular tree r dir name)
    (hextract : extraction s tree (pathBelow s.root (dir ++ [name])) = .ok (.extracted w)) :
    tree.doing (processFile s (pathBelow s.root (dir ++ [name]))) =
      (told s (pathBelow s.root (dir ++ [name])) ((verdict tree (placed r dir (textsOf s dir name w))).map fun _ =>
        ⟨[], some (bundleOf s (pathBelow s.root (dir ++ [name])) w)⟩),
        tree.store (tree.admitted (placed r dir (textsOf s dir name w)))) := by
  obtain ⟨text, htext, hresult⟩ := extraction_eq_ok_iff.1 hextract
  obtain ⟨parent, hparent, hne, hsteps⟩ := Path.parent?_pathBelow hs.output.1 h.proper
  -- the folder is there, so the script itself is written; what goes beside it may fail
  have hfolder : tree.doing (perform (.folder parent)) = (.ok (), tree) := doing_perform_folder <|
    hs.output.below h.opened (fun n hn => h.proper n (List.mem_append_left _ hn)) hne hsteps
  have hnames : ∀ x ∈ textsOf s dir name w, ∀ n ∈ dir ++ [x.1], Path.Proper n := by
    intro x hx
    rcases List.mem_cons.1 (mem_textsOf hx) with heq | hside
    · exact heq ▸ h.proper
    · exact proper_side h.proper hside
  have hdone := doing_performAll_texts hs.output h.opened hnames fun x hx => h.not_link (mem_textsOf hx)
  rw [h.not_folder] at hdone
  have hsteps : tree.doing (performAll (resultSteps (targetOf s (pathBelow s.root (dir ++ [name]))) w
      (bundleOf s (pathBelow s.root (dir ++ [name])) w))) = (verdict tree (placed r dir (textsOf s dir name w)),
        tree.store (tree.admitted (placed r dir (textsOf s dir name w)))) := by
    rw [targetOf_pathBelow hs.root.1 h.proper h.plain, resultSteps_eq hs.output.1 h.proper hparent,
      doing_performAll_cons hfolder]
    exact hdone
  exact doing_processFile (doing_treat htext (plan_extracted hresult) hsteps)

/-- **A script that is extracted is written in its new form**, even if something beside it cannot be written. -/
theorem Scene.doing_processFile_extracted (hs : Scene s tree r) (h : Regular tree r dir name)
    (hextract : extraction s tree (pathBelow s.root (dir ++ [name])) = .ok (.extracted w)) :
    ∃ outcome next, tree.doing (processFile s (pathBelow s.root (dir ++ [name]))) = (outcome, next) ∧
      (outcome.Failed ↔ ∃ n ∈ sideNames name w.sourceMap.isSome, tree.at? (r ++ (dir ++ [n])) = some .folder) ∧
      next.at? (r ++ (dir ++ [name])) = some (.file (Disk.bytesOf w.contents)) ∧
      FileTree.Amended (Output r dir name) tree next := by
  refine ⟨_, _, hs.doing_processFile_texts h hextract, ?_, ?_, ?_⟩
  · rw [failed_told, Ne, textsOf, placed, List.map_cons, verdict_cons h.not_folder, verdict_eq_ok_iff, List.forall_mem_map,
      ← map_sidesOf name w (bundleOf s (pathBelow s.root (dir ++ [name])) w), ← not_iff_not]
    simp only [ne_eq, not_not, not_exists, not_and, List.forall_mem_map]
  · refine at?_placed_first h.not_folder ?_
    rw [map_sidesOf]
    exact fun hmem => ne_sideNames h.ending (mem_sideNames hmem) rfl
  · refine (FileTree.amended_store fun v hv => ⟨(h.free_texts hv).1, (h.free_texts hv).2.1⟩).weaken ?_
    rintro p ⟨v, hv, rfl⟩
    exact (h.free_texts hv).2.2

end Process
end Localizer
