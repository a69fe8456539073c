import Localizer.Proofs.Paths
import Mathlib.Data.List.Induction
import Mathlib.Data.List.Nodup
import Mathlib.Data.List.TakeWhile
/-!
# Places — where the paths below a folder lead

`FileTree.Way` is the relation behind `FileTree.locate` for paths that lead to a folder: which names it goes through and
which links it takes.  A way depends only on the steps of a path (`Way.congr`), stays while folders and links stay
(`Way.mono`), and is the first part of the way to everything below the folder (`Way.append`).  So a name in a folder
below is found at its place (`locate_pathBelow`), whatever links lead to the folder above.
-/
namespace Localizer
namespace FileTree

open Localizer.Path (Proper isIdle isAbsolute segments steps)

/-- **A tree as a disk has it**: each place occurs once, has a name, and stands in a folder. -/
structure Sound (tree : FileTree) : Prop where
  distinct : (tree.entries.map (·.1)).Nodup
  named : ∀ e ∈ tree.entries, e.1 ≠ [] ∧ ∀ n ∈ e.1, Proper n
  held : ∀ e ∈ tree.entries, tree.at? e.1.dropLast = some .folder

variable {tree other : FileTree} {p q r : Place} {node : FileNode}

theorem at?_root (tree : FileTree) : tree.at? [] = some .folder := rfl

theorem at?_of_ne_nil (h : p ≠ []) : tree.at? p = (tree.entries.find? fun e => e.1 == p).map (·.2) :=
  if_neg (by simpa using h)

theorem at?_put (h : p ≠ []) (q : Place) : (tree.put p node).at? q = if q = p then some node else tree.at? q := by
  by_cases hroot : q = []
  · rw [hroot, at?_root, at?_root, if_neg h.symm]
  · rw [at?_of_ne_nil hroot, at?_of_ne_nil hroot, put, List.find?_append]
    by_cases heq : q = p
    · have hnone : (tree.entries.filter (fun e => e.1 != p)).find? (fun e => e.1 == q) = none := by
        rw [heq]
        exact List.find?_eq_none.2 fun e he => by simpa using (List.mem_filter.1 he).2
      rw [hnone, if_pos heq, heq]
      simp
    · have hkept : (tree.entries.filter (fun e => e.1 != p)).find? (fun e => e.1 == q) =
          tree.entries.find? fun e => e.1 == q := by
        rw [List.find?_filter]
        refine congrArg (fun f => tree.entries.find? f) (funext fun e => ?_)
        by_cases he : e.1 = q
        · simp [he, heq]
        · simp [he]
      have hlast : [(p, node)].find? (fun e => e.1 == q) = none := by simpa using Ne.symm heq
      rw [hkept, hlast, Option.or_none, if_neg heq]

theorem mem_of_at? (h : tree.at? p = some node) (hne : p ≠ []) : (p, node) ∈ tree.entries := by
  rw [at?_of_ne_nil hne, Option.map_eq_some_iff] at h
  obtain ⟨⟨q, node'⟩, he, rfl⟩ := h
  obtain rfl : q = p := by simpa using List.find?_some he
  exact List.mem_of_find?_eq_some he

theorem Sound.at?_of_mem (hs : tree.Sound) {e : Place × FileNode} (he : e ∈ tree.entries) :
    tree.at? e.1 = some e.2 := by
  rw [at?_of_ne_nil (hs.named e he).1]
  cases hfind : tree.entries.find? fun e' => e'.1 == e.1 with
  | none => exact absurd BEq.rfl (List.find?_eq_none.1 hfind e he)
  | some e' =>
    have hplace : e'.1 = e.1 := by simpa using List.find?_some hfind
    rw [List.inj_on_of_nodup_map hs.distinct (List.mem_of_find?_eq_some hfind) he hplace]
    rfl

theorem Sound.parent (hs : tree.Sound) (h : tree.at? p ≠ none) : tree.at? p.dropLast = some .folder := by
  by_cases hne : p = []
  · rw [hne]
    rfl
  · obtain ⟨node, hnode⟩ := Option.ne_none_iff_exists'.1 h
    exact hs.held _ (mem_of_at? hnode hne)

theorem Sound.folder_above (hs : tree.Sound) (h : tree.at? (p ++ q) ≠ none) (hq : q ≠ []) :
    tree.at? p = some .folder := by
  induction q using List.reverseRecOn with
  | nil => exact absurd rfl hq
  | append_singleton q n ih =>
    have hparent := hs.parent h
    rw [← List.append_assoc, List.dropLast_concat] at hparent
    by_cases hnil : q = []
    · rwa [hnil, List.append_nil] at hparent
    · exact ih (by simp [hparent]) hnil

/-! ## Ways to a folder -/

/-- **The way of a path to a folder**, from a folder and with at most so many links. -/
inductive Way (tree : FileTree) : Nat → Place → List String → Place → Prop
  | here {n : Nat} {p : Place} : tree.at? p = some .folder → Way tree n p [] p
  | idle {n : Nat} {p r : Place} {s : String} {ss : List String} : isIdle s = true → Way tree n p ss r →
      Way tree n p (s :: ss) r
  | up {n : Nat} {p r : Place} {ss : List String} : Way tree n p.dropLast ss r → Way tree n p (".." :: ss) r
  | down {n : Nat} {p r : Place} {s : String} {ss : List String} : isIdle s = false → s ≠ ".." →
      tree.at? (p ++ [s]) = some .folder → Way tree n (p ++ [s]) ss r → Way tree n p (s :: ss) r
  | link {n : Nat} {p r : Place} {s target : String} {ss : List String} : isIdle s = false → s ≠ ".." →
      tree.at? (p ++ [s]) = some (.link target) → target ≠ "" →
      Way tree n (if isAbsolute target then [] else p) (segments target ++ ss) r → Way tree (n + 1) p (s :: ss) r

variable {follow : Bool} {n : Nat} {s target : String} {ss : List String}

theorem locateWith_nil (tree : FileTree) (follow : Bool) (n : Nat) (p : Place) :
    tree.locateWith follow n p [] = .ok (.found p ((tree.at? p).getD .folder)) := by
  cases n <;> rfl

theorem locateWith_idle (h : isIdle s = true) : tree.locateWith follow n p (s :: ss) = tree.locateWith follow n p ss := by
  cases n <;> rw [locateWith, stepThrough, if_pos h]

theorem locateWith_up : tree.locateWith follow n p (".." :: ss) = tree.locateWith follow n p.dropLast ss := by
  cases n <;> rfl

theorem locateWith_folder (hidle : isIdle s = false) (hup : s ≠ "..") (h : tree.at? (p ++ [s]) = some .folder) :
    tree.locateWith follow n p (s :: ss) = tree.locateWith follow n (p ++ [s]) ss := by
  cases n <;> simp [locateWith, stepThrough, hidle, hup, h]

theorem locateWith_link (hidle : isIdle s = false) (hup : s ≠ "..") (h : tree.at? (p ++ [s]) = some (.link target))
    (htarget : target ≠ "") (hgo : follow = true ∨ ss ≠ []) :
    tree.locateWith follow (n + 1) p (s :: ss) =
      tree.locateWith follow n (if isAbsolute target then [] else p) (segments target ++ ss) := by
  rw [locateWith, stepThrough, if_neg (by simp [hidle]), if_neg (by simpa using hup)]
  simp only [h]
  rw [if_neg (by rcases hgo with rfl | hss <;> simp_all), if_neg (by simpa using htarget)]

/-- **A path that leads to a folder has a way there.** -/
theorem Sound.way (hs : tree.Sound) : ∀ (n : Nat) (ss : List String) (p : Place), tree.at? p = some .folder →
    tree.locateWith true n p ss = .ok (.found r .folder) → Way tree n p ss r
  | n, [], p, hp, h => by
    rw [locateWith_nil, hp] at h
    cases h
    exact .here hp
  | n, s :: ss, p, hp, h => by
    by_cases hidle : isIdle s = true
    · rw [locateWith_idle hidle] at h
      exact .idle hidle (hs.way n ss p hp h)
    by_cases hup : s = ".."
    · subst hup
      rw [locateWith_up] at h
      exact .up (hs.way n ss _ (hs.parent (by simp [hp])) h)
    rw [Bool.not_eq_true] at hidle
    cases hnode : tree.at? (p ++ [s]) with
    | none => cases n <;> cases ss <;> simp [locateWith, stepThrough, hidle, hup, hnode] at h
    | some node =>
      cases node with
      | file contents => cases n <;> cases ss <;> simp [locateWith, stepThrough, hidle, hup, hnode] at h
      | folder =>
        rw [locateWith_folder hidle hup hnode] at h
        exact .down hidle hup hnode (hs.way n ss _ hnode h)
      | link target =>
        by_cases htarget : target = ""
        · cases n <;> simp [locateWith, stepThrough, hidle, hup, hnode, htarget] at h
        cases n with
        | zero => simp [locateWith, stepThrough, hidle, hup, hnode, htarget] at h
        | succ n =>
          rw [locateWith_link hidle hup hnode htarget (Or.inl rfl)] at h
          refine .link hidle hup hnode htarget (hs.way n _ _ ?_ h)
          split
          · rfl
          · exact hp
termination_by n ss => (n, ss.length)

theorem Way.skip {front : List String} (hfront : ∀ s ∈ front, ¬(!isIdle s) = true) (h : Way tree n p ss r) :
    Way tree n p (front ++ ss) r := by
  induction front with
  | nil => exact h
  | cons s front ih =>
    exact .idle (by simpa using hfront s (List.mem_cons_self ..)) (ih fun x hx => hfront x (List.mem_cons_of_mem _ hx))

/-- **The way of a path does not depend on segments that say nothing.** -/
theorem Way.congr (h : Way tree n p ss r) : ∀ {ss' : List String},
    ss'.filter (!isIdle ·) = ss.filter (!isIdle ·) → Way tree n p ss' r := by
  induction h with
  | @here n p hp =>
    intro ss' heq
    have hway : Way tree n p (ss' ++ []) p := (Way.here hp).skip (List.filter_eq_nil_iff.1 heq)
    rwa [List.append_nil] at hway
  | idle hidle _ ih =>
    intro ss' heq
    rw [List.filter_cons_of_neg (by simp [hidle])] at heq
    exact ih heq
  | up _ ih =>
    intro ss' heq
    obtain ⟨front, back, rfl, hfront, -, hback⟩ := List.filter_eq_cons_iff.1 heq
    exact (Way.up (ih hback)).skip hfront
  | down hidle hup hnode _ ih =>
    intro ss' heq
    rw [List.filter_cons_of_pos (by simp [hidle])] at heq
    obtain ⟨front, back, rfl, hfront, -, hback⟩ := List.filter_eq_cons_iff.1 heq
    exact (Way.down hidle hup hnode (ih hback)).skip hfront
  | link hidle hup hnode htarget _ ih =>
    intro ss' heq
    rw [List.filter_cons_of_pos (by simp [hidle])] at heq
    obtain ⟨front, back, rfl, hfront, -, hback⟩ := List.filter_eq_cons_iff.1 heq
    refine (Way.link hidle hup hnode htarget (ih ?_)).skip hfront
    rw [List.filter_append, List.filter_append, hback]

/-- **Folders and links of a tree that are still there in another.** -/
def Keeps (tree other : FileTree) : Prop :=
  ∀ p, (tree.at? p = some .folder → other.at? p = some .folder) ∧
    ∀ target, tree.at? p = some (.link target) → other.at? p = some (.link target)

theorem Way.mono (h : Way tree n p ss r) (hkeep : Keeps tree other) : Way other n p ss r := by
  induction h with
  | here hp => exact .here ((hkeep _).1 hp)
  | idle hidle _ ih => exact .idle hidle ih
  | up _ ih => exact .up ih
  | down hidle hup hnode _ ih => exact .down hidle hup ((hkeep _).1 hnode) ih
  | link hidle hup hnode htarget _ ih => exact .link hidle hup ((hkeep _).2 _ hnode) htarget ih

theorem Way.folder (h : Way tree n p ss r) : tree.at? r = some .folder := by
  induction h with
  | here hp => exact hp
  | idle _ _ ih | up _ ih | down _ _ _ _ ih | link _ _ _ _ _ ih => exact ih

/-- **Paths go on behind a folder as they would from there.** -/
theorem Way.append (h : Way tree n p ss r) (follow : Bool) :
    ∃ m, ∀ rest, rest ≠ [] → tree.locateWith follow n p (ss ++ rest) = tree.locateWith follow m r rest := by
  induction h with
  | @here n p hp => exact ⟨n, fun rest _ => rfl⟩
  | idle hidle _ ih =>
    obtain ⟨m, hm⟩ := ih
    exact ⟨m, fun rest hrest => by rw [List.cons_append, locateWith_idle hidle, hm rest hrest]⟩
  | up _ ih =>
    obtain ⟨m, hm⟩ := ih
    exact ⟨m, fun rest hrest => by rw [List.cons_append, locateWith_up, hm rest hrest]⟩
  | down hidle hup hnode _ ih =>
    obtain ⟨m, hm⟩ := ih
    exact ⟨m, fun rest hrest => by rw [List.cons_append, locateWith_folder hidle hup hnode, hm rest hrest]⟩
  | link hidle hup hnode htarget _ ih =>
    obtain ⟨m, hm⟩ := ih
    refine ⟨m, fun rest hrest => ?_⟩
    rw [List.cons_append, locateWith_link hidle hup hnode htarget (Or.inr (by simp [hrest])), ← List.append_assoc,
      hm rest hrest]

theorem Way.locate (h : Way tree n p ss r) : tree.locateWith true n p ss = .ok (.found r .folder) := by
  induction h with
  | here hp => rw [locateWith_nil, hp, Option.getD_some]
  | idle hidle _ ih => rw [locateWith_idle hidle, ih]
  | up _ ih => rw [locateWith_up, ih]
  | down hidle hup hnode _ ih => rw [locateWith_folder hidle hup hnode, ih]
  | link hidle hup hnode htarget _ ih => rw [locateWith_link hidle hup hnode htarget (Or.inl rfl), ih]

/-- **Without following a link at the end**, a path to a folder leads to the folder or to such a link. -/
theorem Way.locate_unfollowed (h : Way tree n p ss r) :
    tree.locateWith false n p ss = .ok (.found r .folder) ∨
      ∃ q target, tree.locateWith false n p ss = .ok (.found q (.link target)) := by
  induction h with
  | here hp => exact Or.inl (by rw [locateWith_nil, hp, Option.getD_some])
  | idle hidle _ ih => rwa [locateWith_idle hidle]
  | up _ ih => rwa [locateWith_up]
  | down hidle hup hnode _ ih => rwa [locateWith_folder hidle hup hnode]
  | @link n p r s target ss hidle hup hnode htarget _ ih =>
    by_cases hss : ss = []
    · refine Or.inr ⟨p ++ [s], target, ?_⟩
      simp [locateWith, stepThrough, hidle, hup, hnode, hss]
    · rwa [locateWith_link hidle hup hnode htarget (Or.inr hss)]

/-- **All folders on the way down from a place.** -/
def Opened (tree : FileTree) (r dir : Place) : Prop := ∀ front, front <+: dir → tree.at? (r ++ front) = some .folder

theorem Sound.opened {dir : Place} (hs : tree.Sound) (h : tree.at? (r ++ dir) = some .folder) : Opened tree r dir := by
  rintro front ⟨back, rfl⟩
  by_cases hback : back = []
  · rwa [hback, List.append_nil] at h
  · exact hs.folder_above (by rw [List.append_assoc, h]; simp) hback

theorem Opened.mono {dir : Place} (h : Opened tree r dir) (hkeep : Keeps tree other) : Opened other r dir :=
  fun front hfront => (hkeep _).1 (h front hfront)

theorem Opened.way {dir : Place} (h : Opened tree p dir) (hdir : ∀ s ∈ dir, Proper s) : Way tree n p dir (p ++ dir) := by
  induction dir generalizing p with
  | nil =>
    rw [List.append_nil]
    exact .here (by simpa using h [] List.nil_prefix)
  | cons s dir ih =>
    have hs := hdir s (List.mem_cons_self ..)
    have hrest : Opened tree (p ++ [s]) dir := by
      rintro front ⟨back, rfl⟩
      rw [List.append_assoc]
      exact h _ ⟨back, rfl⟩
    have hway : Way tree n (p ++ [s]) dir (p ++ [s] ++ dir) := ih hrest fun x hx => hdir x (List.mem_cons_of_mem _ hx)
    rw [List.append_assoc] at hway
    exact .down hs.1 hs.2.1 (h [s] ⟨dir, rfl⟩) hway

theorem Way.extend {dir : Place} (h : Way tree n p ss r) (hopen : Opened tree r dir) (hdir : ∀ s ∈ dir, Proper s) :
    Way tree n p (ss ++ dir) (r ++ dir) := by
  induction h with
  | here _ => exact hopen.way hdir
  | idle hidle _ ih => exact .idle hidle (ih hopen)
  | up _ ih => exact .up (ih hopen)
  | down hidle hup hnode _ ih => exact .down hidle hup hnode (ih hopen)
  | link hidle hup hnode htarget _ ih =>
    have hway := ih hopen
    rw [List.append_assoc] at hway
    exact .link hidle hup hnode htarget hway

/-! ## Paths below a folder -/

/-- **A path leads to a folder.** -/
def Leads (tree : FileTree) (path : String) (r : Place) : Prop := path ≠ "" ∧ Way tree 40 [] (segments path) r

/-- **What a path to a place finds there.** -/
def landing (tree : FileTree) (p : Place) : Located :=
  match tree.at? p with
  | some node => .found p node
  | none => .vacant p

/-- **A link stands at a path.** -/
def isLink (tree : FileTree) (path : String) : Bool :=
  match tree.locate false path with
  | .ok (.found _ (.link _)) => true
  | _ => false

variable {path base : String} {dir : Place} {name : String}

theorem locate_of_ne_empty (h : path ≠ "") (follow : Bool) :
    tree.locate follow path = tree.locateWith follow 40 [] (segments path) := if_neg (by simpa using h)

theorem Sound.leads (hs : tree.Sound) (h : tree.locate true path = .ok (.found r .folder)) : Leads tree path r := by
  have hne : path ≠ "" := by
    rintro rfl
    cases h
  rw [locate_of_ne_empty hne] at h
  exact ⟨hne, hs.way _ _ _ rfl h⟩

theorem Sound.leads_of_kind? (hs : tree.Sound) (h : tree.kind? path = some .folder) : ∃ r, Leads tree path r := by
  rw [kind?] at h
  split at h
  · cases h
  · exact ⟨_, hs.leads ‹_›⟩
  · cases h

theorem Leads.mono (h : Leads tree path r) (hkeep : Keeps tree other) : Leads other path r := ⟨h.1, h.2.mono hkeep⟩

theorem Leads.locate (h : Leads tree path r) : tree.locate true path = .ok (.found r .folder) := by
  rw [locate_of_ne_empty h.1, h.2.locate]

theorem Leads.below (h : Leads tree base r) (hopen : Opened tree r dir) (hdir : ∀ s ∈ dir, Proper s) (hne : path ≠ "")
    (hsteps : steps path = steps base ++ dir) : Leads tree path (r ++ dir) := by
  refine ⟨hne, (h.2.extend hopen hdir).congr ?_⟩
  rw [List.filter_append, Path.filter_proper hdir]
  exact hsteps

theorem Leads.congr (h : Leads tree base r) (hne : path ≠ "") (hsteps : steps path = steps base) : Leads tree path r :=
  ⟨hne, h.2.congr hsteps⟩

theorem locateWith_name (hs : Proper s) (hlink : follow = false ∨ ∀ target, tree.at? (p ++ [s]) ≠ some (.link target)) :
    tree.locateWith follow n p [s] = .ok (tree.landing (p ++ [s])) := by
  have hstep : ∀ onLink, tree.stepThrough follow onLink p [s] = .ok (tree.landing (p ++ [s])) := by
    intro onLink
    rw [stepThrough, if_neg (by simp [hs.1]), if_neg (by simpa using hs.2.1), landing]
    cases hnode : tree.at? (p ++ [s]) with
    | none => simp [hnode]
    | some node =>
      cases node with
      | file contents => simp [hnode]
      | folder => simp [stepThrough, hnode]
      | link target =>
        rcases hlink with rfl | hlink
        · simp [hnode]
        · exact absurd hnode (hlink target)
  cases n <;> exact hstep _

/-- **A name in a folder below is found at its place.** -/
theorem locate_pathBelow (follow : Bool) (h : Leads tree base r) (hopen : Opened tree r dir)
    (hnames : ∀ s ∈ dir ++ [name], Proper s)
    (hlink : follow = false ∨ ∀ target, tree.at? (r ++ (dir ++ [name])) ≠ some (.link target)) :
    tree.locate follow (pathBelow base (dir ++ [name])) = .ok (tree.landing (r ++ (dir ++ [name]))) := by
  have hsegments := Path.segments_pathBelow h.1 (by simp) hnames
  have hne : pathBelow base (dir ++ [name]) ≠ "" := by
    rw [Path.pathBelow_eq h.1 (by simp) hnames]
    simp
  have htrunk : Way tree 40 [] (segments (Path.trunk base)) r := h.2.congr (Path.steps_trunk base)
  obtain ⟨m, hm⟩ := (htrunk.extend hopen fun s hs => hnames s (List.mem_append_left _ hs)).append follow
  rw [locate_of_ne_empty hne, hsegments]
  rw [← List.append_assoc] at hlink ⊢
  rw [hm [name] (by simp), ← List.append_assoc, locateWith_name (hnames name (by simp)) hlink]

theorem isLink_of_at? (h : tree.locate false path = .ok (tree.landing p)) (hlink : tree.at? p = some (.link target)) :
    tree.isLink path = true := by
  rw [isLink, h, landing, hlink]

theorem read_eq (h : tree.locate true path = .ok (tree.landing p)) :
    tree.read path = match tree.at? p with
      | some (.file contents) => .ok contents
      | some _ => .error .isFolder
      | none => .error .notFound := by
  rw [read, h, landing]
  cases tree.at? p with
  | none => rfl
  | some node => cases node <;> rfl

theorem kind?_eq_folder_iff (h : tree.locate true path = .ok (tree.landing p)) :
    tree.kind? path = some .folder ↔ tree.at? p = some .folder := by
  rw [kind?, h, landing]
  cases tree.at? p with
  | none => simp
  | some node => cases node <;> simp

theorem write_eq (h : tree.locate true path = .ok (tree.landing p)) (hlink : ∀ target, tree.at? p ≠ some (.link target))
    (contents : ByteArray) :
    (tree.at? p = some .folder → tree.write path contents = .error .isFolder) ∧
      (tree.at? p ≠ some .folder → tree.write path contents = .ok (tree.put p (.file contents))) := by
  rw [write, h, landing]
  cases hnode : tree.at? p with
  | none => exact ⟨fun h => absurd h (by simp), fun _ => rfl⟩
  | some node =>
    cases node with
    | file old => exact ⟨fun h => absurd h (by simp), fun _ => rfl⟩
    | folder => exact ⟨fun _ => rfl, fun h => absurd rfl h⟩
    | link target => exact absurd hnode (hlink target)

/-- **Making a folder that is there changes nothing.** -/
theorem Leads.makeFolders (h : Leads tree path r) : tree.makeFolders path = .ok tree := by
  obtain ⟨hne, hsteps⟩ := Path.withoutSlashes_spec h.1
  have hkind : tree.kind? path = some .folder := by rw [kind?, h.locate]
  have hmade : tree.makeFolder path = .error .alreadyThere := by
    rw [makeFolder, locate_of_ne_empty hne]
    rcases (h.congr hne hsteps).2.locate_unfollowed with hfound | ⟨q, target, hfound⟩ <;> rw [hfound]
  obtain ⟨s, ss, hss⟩ := List.exists_cons_of_ne_nil (Path.segments_ne_nil path)
  rw [FileTree.makeFolders, hss, List.length_cons, makeFoldersWithin, if_neg (by simpa using h.1), hmade]
  simp only
  rw [if_pos (by rw [hkind]; rfl)]

theorem Leads.walk (h : Leads tree path r) : tree.walk path = ⟨(tree.filesBelow r).map (pathBelow path), 0⟩ := by
  rw [FileTree.walk]
  simp only
  rw [locate_of_ne_empty h.1]
  rcases h.2.locate_unfollowed with hfound | ⟨q, target, hfound⟩
  · rw [hfound]
  · rw [hfound, h.locate]

theorem mem_filesBelow {names : Place} :
    names ∈ tree.filesBelow r ↔ names ≠ [] ∧ ∃ contents, (r ++ names, .file contents) ∈ tree.entries := by
  rw [filesBelow, List.mem_filterMap]
  constructor
  · rintro ⟨⟨q, node⟩, he, hnames⟩
    cases node with
    | folder => cases hnames
    | link target => cases hnames
    | file contents =>
      simp only [Option.ite_none_right_eq_some, Bool.and_eq_true, List.isPrefixOf_iff_prefix, decide_eq_true_eq,
        Option.some.injEq] at hnames
      obtain ⟨⟨⟨rest, rfl⟩, hlength⟩, hrest⟩ := hnames
      rw [List.drop_left] at hrest
      subst hrest
      refine ⟨?_, contents, he⟩
      rintro rfl
      simp at hlength
  · rintro ⟨hne, contents, he⟩
    refine ⟨_, he, ?_⟩
    have hpos := List.length_pos_iff.2 hne
    simp [hpos]

theorem Sound.file_below (hs : tree.Sound) {names : Place} (h : names ∈ tree.filesBelow r) :
    names ≠ [] ∧ (∀ n ∈ names, Proper n) ∧ ∃ contents, tree.at? (r ++ names) = some (.file contents) := by
  obtain ⟨hne, contents, he⟩ := mem_filesBelow.1 h
  exact ⟨hne, fun n hn => (hs.named _ he).2 n (List.mem_append_right _ hn), contents, hs.at?_of_mem he⟩

theorem Sound.nodup_filesBelow (hs : tree.Sound) (r : Place) : (tree.filesBelow r).Nodup := by
  -- the files below a place in a tree with one entry are what that entry adds
  have hentry : ∀ {e : Place × FileNode} {names : Place}, names ∈ filesBelow ⟨[e]⟩ r → e.1 = r ++ names := by
    intro e names hnames
    obtain ⟨-, contents, he⟩ := mem_filesBelow.1 hnames
    rw [← List.mem_singleton.1 he]
  rw [filesBelow, List.Nodup, List.pairwise_filterMap]
  refine (List.pairwise_map.1 hs.distinct).imp fun {e e'} hne names hnames names' hnames' hsame => hne ?_
  rw [hentry (List.mem_filterMap.2 ⟨e, by simp, hnames⟩), hentry (List.mem_filterMap.2 ⟨e', by simp, hnames'⟩), hsame]

/-! ## Writing files -/

/-- **A place for a file**: no folder and no link stands there. -/
def Free (tree : FileTree) (p : Place) : Prop :=
  tree.at? p ≠ some .folder ∧ ∀ target, tree.at? p ≠ some (.link target)

/-- **A tree in which files were written**, at some places and only where a file may stand. -/
def Amended (written : Place → Prop) (tree other : FileTree) : Prop :=
  ∀ p, other.at? p = tree.at? p ∨ written p ∧ tree.Free p ∧ ∃ contents, other.at? p = some (.file contents)

variable {written written' : Place → Prop} {third : FileTree}

theorem Amended.refl (written : Place → Prop) (tree : FileTree) : Amended written tree tree := fun _ => Or.inl rfl

theorem Amended.weaken (h : Amended written tree other) (hsub : ∀ p, written p → written' p) :
    Amended written' tree other := fun p => (h p).imp id fun ⟨hp, hfree⟩ => ⟨hsub p hp, hfree⟩

theorem Amended.folder_iff (h : Amended written tree other) (p : Place) :
    other.at? p = some .folder ↔ tree.at? p = some .folder := by
  rcases h p with heq | ⟨-, hfree, contents, hfile⟩
  · rw [heq]
  · simp [hfile, hfree.1]

theorem Amended.link_iff (h : Amended written tree other) (p : Place) (target : String) :
    other.at? p = some (.link target) ↔ tree.at? p = some (.link target) := by
  rcases h p with heq | ⟨-, hfree, contents, hfile⟩
  · rw [heq]
  · simp [hfile, hfree.2 target]

theorem Amended.keeps (h : Amended written tree other) : Keeps tree other := fun p =>
  ⟨(h.folder_iff p).2, fun target => (h.link_iff p target).2⟩

theorem Amended.free_iff (h : Amended written tree other) (p : Place) : other.Free p ↔ tree.Free p := by
  rw [Free, Free, Ne, h.folder_iff]
  simp only [Ne, h.link_iff]

theorem Amended.trans (h : Amended written tree other) (h' : Amended written' other third) :
    Amended (fun p => written p ∨ written' p) tree third := by
  intro p
  rcases h' p with heq | ⟨hp, hfree, hfile⟩
  · rw [heq]
    exact (h p).imp id fun ⟨hp, hrest⟩ => ⟨Or.inl hp, hrest⟩
  · exact Or.inr ⟨Or.inr hp, (h.free_iff p).1 hfree, hfile⟩

theorem Amended.at?_eq (h : Amended written tree other) (hp : ¬written p) : other.at? p = tree.at? p :=
  (h p).resolve_right fun hwritten => hp hwritten.1

theorem amended_put (hp : p ≠ []) (hfree : tree.Free p) (contents : ByteArray) :
    Amended (· = p) tree (tree.put p (.file contents)) := by
  intro q
  rw [at?_put hp]
  by_cases hq : q = p
  · exact Or.inr ⟨hq, hq ▸ hfree, contents, if_pos hq⟩
  · exact Or.inl (if_neg hq)

/-- **A folder stands at a place.** -/
def isFolder (tree : FileTree) (p : Place) : Bool :=
  match tree.at? p with
  | some .folder => true
  | _ => false

theorem isFolder_iff : tree.isFolder p = true ↔ tree.at? p = some .folder := by
  unfold isFolder
  split
  · simp [*]
  · simp_all

theorem Amended.isFolder_eq (h : Amended written tree other) (p : Place) : other.isFolder p = tree.isFolder p := by
  rw [Bool.eq_iff_iff, isFolder_iff, isFolder_iff, h.folder_iff]

/-- **Write texts to places**, one after another. -/
def store (tree : FileTree) (ws : List (Place × List Char)) : FileTree :=
  ws.foldl (fun t w => t.put w.1 (.file (Disk.bytesOf w.2))) tree

/-- **The texts before the first whose place is taken by a folder.** -/
def admitted (tree : FileTree) (ws : List (Place × List Char)) : List (Place × List Char) :=
  ws.takeWhile fun w => !tree.isFolder w.1

variable {w : Place × List Char} {ws : List (Place × List Char)}

theorem mem_admitted (h : w ∈ tree.admitted ws) : w ∈ ws ∧ tree.at? w.1 ≠ some .folder := by
  have hfolder := List.mem_takeWhile_imp h
  rw [Bool.not_eq_true', ← Bool.not_eq_true, isFolder_iff] at hfolder
  exact ⟨(List.takeWhile_sublist _).subset h, hfolder⟩

theorem Amended.admitted_eq (h : Amended written tree other) (ws : List (Place × List Char)) :
    other.admitted ws = tree.admitted ws := by
  simp only [admitted, h.isFolder_eq]

theorem admitted_cons (h : tree.isFolder w.1 = false) : tree.admitted (w :: ws) = w :: tree.admitted ws :=
  List.takeWhile_cons_of_pos (by simp [h])

theorem store_append (tree : FileTree) (ws vs : List (Place × List Char)) :
    tree.store (ws ++ vs) = (tree.store ws).store vs := List.foldl_append

/-- **The last text written to a place is there.** -/
theorem at?_store_of_mem (hne : ∀ v ∈ ws, v.1 ≠ []) (hw : w ∈ ws) (hsame : ∀ v ∈ ws, v.1 = w.1 → v.2 = w.2) :
    (tree.store ws).at? w.1 = some (.file (Disk.bytesOf w.2)) := by
  induction ws using List.reverseRecOn with
  | nil => cases hw
  | append_singleton ws v ih =>
    rw [store_append]
    change ((tree.store ws).put v.1 _).at? w.1 = _
    rw [at?_put (hne v (by simp))]
    by_cases hv : w.1 = v.1
    · rw [if_pos hv, hsame v (by simp) hv.symm]
    · have hw' : w ∈ ws := (List.mem_append.1 hw).resolve_right fun h => hv (congrArg Prod.fst (List.mem_singleton.1 h))
      rw [if_neg hv]
      exact ih (fun x hx => hne x (List.mem_append_left _ hx)) hw' fun x hx => hsame x (List.mem_append_left _ hx)

theorem at?_store_of_ne (hne : ∀ v ∈ ws, v.1 ≠ []) (hp : ∀ v ∈ ws, v.1 ≠ p) : (tree.store ws).at? p = tree.at? p := by
  induction ws using List.reverseRecOn with
  | nil => rfl
  | append_singleton ws v ih =>
    rw [store_append]
    change ((tree.store ws).put v.1 _).at? p = _
    rw [at?_put (hne v (by simp)), if_neg (hp v (by simp)).symm]
    exact ih (fun x hx => hne x (List.mem_append_left _ hx)) fun x hx => hp x (List.mem_append_left _ hx)

/-- **A text gets to its place** exactly if no folder stands there or in the place of one before it. -/
theorem mem_admitted_iff {front back : List (Place × List Char)} (hfront : w ∉ front) :
    w ∈ tree.admitted (front ++ w :: back) ↔ ∀ v ∈ front ++ [w], tree.at? v.1 ≠ some .folder := by
  have hclear : ∀ v : Place × List Char, tree.isFolder v.1 = false ↔ tree.at? v.1 ≠ some .folder := fun v => by
    rw [← Bool.not_eq_true, isFolder_iff]
  simp only [← hclear]
  induction front with
  | nil =>
    by_cases hw : tree.isFolder w.1 = true
    · simp [admitted, hw]
    · simp [admitted, hw]
  | cons u front ih =>
    have hne : w ≠ u := fun heq => hfront (heq ▸ List.mem_cons_self ..)
    by_cases hu : tree.isFolder u.1 = true
    · simp [admitted, hu]
    · rw [Bool.not_eq_true] at hu
      have hlater := ih fun hmem => hfront (List.mem_cons_of_mem _ hmem)
      rw [List.cons_append, admitted_cons hu, List.mem_cons, or_iff_right hne, List.cons_append, List.forall_mem_cons]
      exact hlater.trans (and_iff_right hu).symm

theorem at?_store_congr (h : ∀ p, tree.at? p = other.at? p) (hne : ∀ v ∈ ws, v.1 ≠ []) (p : Place) :
    (tree.store ws).at? p = (other.store ws).at? p := by
  induction ws using List.reverseRecOn with
  | nil => exact h p
  | append_singleton ws v ih =>
    rw [store_append, store_append]
    change ((tree.store ws).put v.1 _).at? p = ((other.store ws).put v.1 _).at? p
    rw [at?_put (hne v (by simp)), at?_put (hne v (by simp)), ih fun x hx => hne x (List.mem_append_left _ hx)]

/-- **Texts may be written in any order** if those for one place are the same. -/
theorem at?_store_perm {vs : List (Place × List Char)} (hperm : ws.Perm vs) (hne : ∀ v ∈ ws, v.1 ≠ [])
    (hagree : ∀ u ∈ ws, ∀ v ∈ ws, u.1 = v.1 → u.2 = v.2) (p : Place) :
    (tree.store ws).at? p = (tree.store vs).at? p := by
  have hne' : ∀ v ∈ vs, v.1 ≠ [] := fun v hv => hne v (hperm.mem_iff.2 hv)
  by_cases hp : ∃ w ∈ ws, w.1 = p
  · obtain ⟨w, hw, rfl⟩ := hp
    rw [at?_store_of_mem hne hw fun v hv => hagree v hv w hw, at?_store_of_mem hne' (hperm.mem_iff.1 hw) fun v hv =>
      hagree v (hperm.mem_iff.2 hv) w hw]
  · have hnone : ∀ v ∈ ws, v.1 ≠ p := fun v hv heq => hp ⟨v, hv, heq⟩
    rw [at?_store_of_ne hne hnone, at?_store_of_ne hne' fun v hv => hnone v (hperm.mem_iff.2 hv)]

theorem amended_store (h : ∀ w ∈ ws, w.1 ≠ [] ∧ tree.Free w.1) :
    Amended (fun p => ∃ w ∈ ws, p = w.1) tree (tree.store ws) := by
  induction ws using List.reverseRecOn with
  | nil => exact .refl _ _
  | append_singleton ws v ih =>
    have hbefore := ih fun w hw => h w (List.mem_append_left _ hw)
    obtain ⟨hne, hfree⟩ := h v (by simp)
    rw [store_append]
    refine (hbefore.trans (amended_put hne ((hbefore.free_iff v.1).2 hfree) (Disk.bytesOf v.2))).weaken ?_
    rintro p (⟨w, hw, rfl⟩ | rfl)
    · exact ⟨w, List.mem_append_left _ hw, rfl⟩
    · exact ⟨v, by simp, rfl⟩

end FileTree
end Localizer
