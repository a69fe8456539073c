import Localizer.Proofs.Places
/-!
# Growth — what file operations can do to a tree

Making folders and writing files never takes a folder or a link away (`FileTree.Grown`), and a tree as a disk has it
stays one (`FileTree.Sound.write`, `FileTree.Sound.makeFolders`).  Where a path leads is read off its way: the way of a
longer path is the way of its front and then the rest (`FileTree.Way.split`), and names below which no link stands lead
straight down (`FileTree.Way.straight`).
-/
namespace Localizer
namespace FileTree

open Localizer.Path (Proper isIdle isAbsolute segments steps)

variable {tree other third : FileTree} {p q r : Place} {node : FileNode} {written written' : Place → Prop}

/-- **A tree that has grown**: folders were made where nothing stood, and files were written at some places, only where a
file may stand. -/
def Grown (written : Place → Prop) (tree other : FileTree) : Prop :=
  ∀ p, other.at? p = tree.at? p ∨ (tree.at? p = none ∧ other.at? p = some .folder) ∨
    written p ∧ tree.Free p ∧ ∃ contents, other.at? p = some (.file contents)

theorem Grown.refl (written : Place → Prop) (tree : FileTree) : Grown written tree tree := fun _ => Or.inl rfl

theorem Amended.grown (h : Amended written tree other) : Grown written tree other := fun p => (h p).imp id Or.inr

theorem Grown.weaken (h : Grown written tree other) (hsub : ∀ p, written p → written' p) : Grown written' tree other :=
  fun p => (h p).imp id fun hp => hp.imp id fun ⟨hw, hrest⟩ => ⟨hsub p hw, hrest⟩

theorem Grown.keeps (h : Grown written tree other) : Keeps tree other := by
  intro p
  rcases h p with heq | ⟨hnone, -⟩ | ⟨-, hfree, -⟩
  · rw [heq]
    exact ⟨id, fun _ => id⟩
  · simp [hnone]
  · exact ⟨fun hp => absurd hp hfree.1, fun target hp => absurd hp (hfree.2 target)⟩

theorem Grown.link_iff (h : Grown written tree other) (p : Place) (target : String) :
    other.at? p = some (.link target) ↔ tree.at? p = some (.link target) := by
  rcases h p with heq | ⟨hnone, hfolder⟩ | ⟨-, hfree, contents, hfile⟩
  · rw [heq]
  · simp [hnone, hfolder]
  · simp [hfile, hfree.2 target]

theorem Grown.trans (h : Grown written tree other) (h' : Grown written' other third) :
    Grown (fun p => written p ∨ written' p) tree third := by
  intro p
  rcases h' p with heq | ⟨hnone, hfolder⟩ | ⟨hw', hfree', hfile'⟩
  · rw [heq]
    exact (h p).imp id fun hp => hp.imp id fun ⟨hw, hrest⟩ => ⟨.inl hw, hrest⟩
  · rcases h p with heq | ⟨-, hother⟩ | ⟨-, -, contents, hother⟩
    · exact .inr (.inl ⟨heq ▸ hnone, hfolder⟩)
    · rw [hother] at hnone
      cases hnone
    · rw [hother] at hnone
      cases hnone
  · refine .inr (.inr ⟨.inr hw', ?_, hfile'⟩)
    rcases h p with heq | ⟨hnone, -⟩ | ⟨-, hfree, -⟩
    · rwa [Free, heq] at hfree'
    · simp [Free, hnone]
    · exact hfree

/-- **A file that was not written has stood there before.** -/
theorem Grown.file_iff (h : Grown written tree other) (hp : ¬written p) (contents : ByteArray) :
    other.at? p = some (.file contents) ↔ tree.at? p = some (.file contents) := by
  rcases h p with heq | ⟨hnone, hfolder⟩ | ⟨hw, -⟩
  · rw [heq]
  · simp [hnone, hfolder]
  · exact absurd hw hp

theorem grown_put_folder (hp : p ≠ []) (hnone : tree.at? p = none) : Grown written tree (tree.put p .folder) := by
  intro q
  rw [at?_put hp]
  by_cases hq : q = p
  · rw [if_pos hq, hq]
    exact .inr (.inl ⟨hnone, rfl⟩)
  · exact .inl (if_neg hq)

/-! ## Trees as a disk has them -/

theorem Sound.put (hs : tree.Sound) (hne : p ≠ []) (hproper : ∀ n ∈ p, Proper n)
    (hparent : tree.at? p.dropLast = some .folder) (hstay : tree.at? p = some .folder → node = .folder) :
    (tree.put p node).Sound := by
  have hkept : ∀ q, tree.at? q = some .folder → (tree.put p node).at? q = some .folder := by
    intro q hq
    rw [at?_put hne]
    by_cases hqp : q = p
    · rw [if_pos hqp, hstay (hqp ▸ hq)]
    · rwa [if_neg hqp]
  have hmem : ∀ e ∈ (tree.put p node).entries, e ∈ tree.entries ∨ e = (p, node) := by
    intro e he
    rcases List.mem_append.1 he with he | he
    · exact .inl (List.mem_filter.1 he).1
    · exact .inr (List.mem_singleton.1 he)
  refine ⟨?_, fun e he => ?_, fun e he => ?_⟩
  · unfold FileTree.put
    rw [List.map_append, List.nodup_append]
    refine ⟨(List.filter_sublist.map _).nodup hs.distinct, by simp, ?_⟩
    intro a ha b hb hab
    obtain ⟨e, he, rfl⟩ := List.mem_map.1 ha
    have hep : e.1 = p := by simpa [hab] using hb
    simpa [hep] using (List.mem_filter.1 he).2
  · rcases hmem e he with he | rfl
    · exact hs.named e he
    · exact ⟨hne, hproper⟩
  · rcases hmem e he with he | rfl
    · exact hkept _ (hs.held e he)
    · exact hkept _ hparent

theorem Sound.proper (hs : tree.Sound) (h : tree.at? p ≠ none) : ∀ n ∈ p, Proper n := by
  by_cases hne : p = []
  · simp [hne]
  · obtain ⟨node, hnode⟩ := Option.ne_none_iff_exists'.1 h
    exact (hs.named _ (mem_of_at? hnode hne)).2

/-- **The place that a path leads to**, and what stands there. -/
def spot : Located → Place × Option FileNode
  | .found p node => (p, some node)
  | .vacant p => (p, none)

/-- **A path that leads somewhere**: to a place in a folder, where it would lead to a folder if one stood there. -/
structure Landed (tree : FileTree) (n : Nat) (p : Place) (ss : List String) (l : Located) : Prop where
  node : tree.at? (spot l).1 = (spot l).2
  proper : ∀ x ∈ (spot l).1, Proper x
  parent : tree.at? (spot l).1.dropLast = some .folder
  way : ∀ other, tree.Keeps other → other.at? (spot l).1 = some .folder → Way other n p ss (spot l).1

variable {follow : Bool} {n m : Nat} {ss ss' : List String} {l : Located}

theorem Landed.imp (h : Landed tree m r ss' l)
    (hway : ∀ other q, tree.Keeps other → Way other m r ss' q → Way other n p ss q) : Landed tree n p ss l :=
  { h with way := fun other hkeep hfolder => hway other _ hkeep (h.way other hkeep hfolder) }

theorem Sound.landed_here (hs : tree.Sound) (hp : tree.at? p = some .folder) : Landed tree n p [] (.found p .folder) where
  node := hp
  proper := hs.proper (p := p) (by simp [hp])
  parent := hs.parent (p := p) (by simp [hp])
  way _ _ hfolder := .here hfolder

theorem Sound.landed_name (hs : tree.Sound) {s : String} (hp : tree.at? p = some .folder) (hname : Proper s)
    (hspot : spot l = (p ++ [s], tree.at? (p ++ [s]))) : Landed tree n p [s] l where
  node := by rw [hspot]
  proper x hx := by
    rw [hspot] at hx
    rcases List.mem_append.1 hx with hx | hx
    · exact hs.proper (by simp [hp]) x hx
    · exact List.mem_singleton.1 hx ▸ hname
  parent := by rwa [hspot, List.dropLast_concat]
  way other _ hfolder := by
    rw [hspot] at hfolder ⊢
    exact .down hname.1 hname.2.1 hfolder (.here hfolder)

/-- **A path that is found leads somewhere.** -/
theorem Sound.landed (hs : tree.Sound) : ∀ (n : Nat) (ss : List String) (p : Place), tree.at? p = some .folder →
    (∀ s ∈ ss, '/' ∉ s.toList) → tree.locateWith follow n p ss = .ok l → Landed tree n p ss l
  | n, [], p, hp, _, h => by
    rw [locateWith_nil, hp] at h
    cases h
    exact hs.landed_here hp
  | n, s :: ss, p, hp, hslash, h => by
    have hrest : ∀ x ∈ ss, '/' ∉ x.toList := fun x hx => hslash x (List.mem_cons_of_mem _ hx)
    by_cases hidle : isIdle s = true
    · rw [locateWith_idle hidle] at h
      exact (hs.landed n ss p hp hrest h).imp fun _ _ _ => .idle hidle
    by_cases hup : s = ".."
    · subst hup
      rw [locateWith_up] at h
      exact (hs.landed n ss _ (hs.parent (by simp [hp])) hrest h).imp fun _ _ _ => .up
    rw [Bool.not_eq_true] at hidle
    have hname : Proper s := ⟨hidle, hup, hslash s (List.mem_cons_self ..)⟩
    cases hnode : tree.at? (p ++ [s]) with
    | none =>
      cases ss with
      | cons x xs => cases n <;> simp [locateWith, stepThrough, hidle, hup, hnode] at h
      | nil =>
        have hl : Located.vacant (p ++ [s]) = l := by
          cases n <;> simpa [locateWith, stepThrough, hidle, hup, hnode] using h
        exact hs.landed_name hp hname (by rw [← hl, hnode]; rfl)
    | some node =>
      cases node with
      | file contents =>
        cases ss with
        | cons x xs => cases n <;> simp [locateWith, stepThrough, hidle, hup, hnode] at h
        | nil =>
          have hl : Located.found (p ++ [s]) (.file contents) = l := by
            cases n <;> simpa [locateWith, stepThrough, hidle, hup, hnode] using h
          exact hs.landed_name hp hname (by rw [← hl, hnode]; rfl)
      | folder =>
        rw [locateWith_folder hidle hup hnode] at h
        exact (hs.landed n ss _ hnode hrest h).imp fun _ _ hkeep => .down hidle hup ((hkeep _).1 hnode)
      | link target =>
        by_cases hgo : follow = true ∨ ss ≠ []
        · by_cases htarget : target = ""
          · cases n <;> rcases hgo with rfl | hgo <;> simp_all [locateWith, stepThrough]
          cases n with
          | zero => rcases hgo with rfl | hgo <;> simp_all [locateWith, stepThrough]
          | succ n =>
            rw [locateWith_link hidle hup hnode htarget hgo] at h
            have hstart : tree.at? (if isAbsolute target then [] else p) = some .folder := by
              split
              · rfl
              · exact hp
            have hslash' : ∀ x ∈ segments target ++ ss, '/' ∉ x.toList := fun x hx =>
              (List.mem_append.1 hx).elim Path.slash_not_mem_segment (hrest x)
            exact (hs.landed n _ _ hstart hslash' h).imp fun _ _ hkeep => .link hidle hup ((hkeep _).2 _ hnode) htarget
        · -- the link itself is what is found
          obtain ⟨rfl, rfl⟩ : follow = false ∧ ss = [] := by simpa [not_or] using hgo
          have hl : Located.found (p ++ [s]) (.link target) = l := by
            cases n <;> simpa [locateWith, stepThrough, hidle, hup, hnode] using h
          exact hs.landed_name hp hname (by rw [← hl, hnode]; rfl)
termination_by n ss => (n, ss.length)

variable {path base : String} {contents : ByteArray}

theorem Sound.landed_path (hs : tree.Sound) (h : tree.locate follow path = .ok l) :
    path ≠ "" ∧ Landed tree 40 [] (segments path) l := by
  have hne : path ≠ "" := by
    rintro rfl
    cases h
  rw [locate_of_ne_empty hne] at h
  exact ⟨hne, hs.landed _ _ _ rfl (fun s hmem => Path.slash_not_mem_segment hmem) h⟩

/-! ## Operations -/

/-- **What file operations make of a tree.** -/
structure Evolves (tree other : FileTree) : Prop where
  sound : other.Sound
  grown : Grown (fun _ => True) tree other

theorem Sound.evolves (hs : tree.Sound) : Evolves tree tree := ⟨hs, .refl _ _⟩

theorem Evolves.trans (h : Evolves tree other) (h' : Evolves other third) : Evolves tree third :=
  ⟨h'.sound, (h.grown.trans h'.grown).weaken fun _ _ => trivial⟩

/-- **A file is written at the place of its path.** -/
theorem Sound.evolves_write (hs : tree.Sound) (h : tree.write path contents = .ok other) : Evolves tree other := by
  have hput : ∀ l, tree.locate true path = .ok l → tree.Free (spot l).1 → (spot l).1 ≠ [] →
      Evolves tree (tree.put (spot l).1 (.file contents)) := by
    intro l hl hfree hne
    have hlanded := (hs.landed_path hl).2
    exact ⟨hs.put hne hlanded.proper hlanded.parent fun hfolder => absurd hfolder hfree.1,
      (amended_put hne hfree contents).grown.weaken fun _ _ => trivial⟩
  rw [write] at h
  split at h
  · rename_i p old hl
    have hnode : tree.at? p = some (.file old) := (hs.landed_path hl).2.node
    obtain rfl := Except.ok.inj h
    refine hput _ hl (by simp [Free, spot, hnode]) ?_
    rintro rfl
    cases hnode
  · cases h
  · rename_i p hl
    have hnode : tree.at? p = none := (hs.landed_path hl).2.node
    obtain rfl := Except.ok.inj h
    refine hput _ hl (by simp [Free, spot, hnode]) ?_
    rintro rfl
    cases hnode
  · cases h

/-- **A tree in which a folder was made**: files stay as they are, and the path leads to the folder. -/
structure Opens (path : String) (tree other : FileTree) : Prop where
  sound : other.Sound
  grown : Grown (fun _ => False) tree other
  leads : path ≠ "" → ∃ q, other.Leads path q

theorem Sound.opens (hs : tree.Sound) (h : tree.kind? path = some .folder) : Opens path tree tree :=
  ⟨hs, .refl _ _, fun _ => hs.leads_of_kind? h⟩

theorem Sound.opens_makeFolder (hs : tree.Sound) (h : tree.makeFolder path = .ok other) : Opens path tree other := by
  rw [makeFolder] at h
  split at h
  · cases h
  · rename_i p hl
    obtain rfl := Except.ok.inj h
    obtain ⟨-, hlanded⟩ := hs.landed_path hl
    have hnone : tree.at? p = none := hlanded.node
    have hne : p ≠ [] := by
      rintro rfl
      cases hnone
    have hgrown : Grown (fun _ => False) tree (tree.put p .folder) := grown_put_folder hne hnone
    refine ⟨hs.put hne hlanded.proper hlanded.parent fun _ => rfl, hgrown, fun hpath => ⟨p, hpath, ?_⟩⟩
    have hway := hlanded.way _ hgrown.keeps (by rw [at?_put hne, spot, if_pos rfl])
    exact hway.congr (Path.withoutSlashes_spec hpath).2.symm
  · cases h

theorem Sound.opens_ensureFolder (hs : tree.Sound) (h : tree.ensureFolder path = .ok other) : Opens path tree other := by
  rw [ensureFolder] at h
  split at h
  · obtain rfl := Except.ok.inj h
    exact hs.opens_makeFolder ‹_›
  · split at h
    · obtain rfl := Except.ok.inj h
      exact hs.opens (eq_of_beq ‹_›)
    · cases h

theorem Sound.opens_makeFoldersWithin (hs : tree.Sound) {levels : Nat}
    (h : makeFoldersWithin levels tree path = .ok other) : Opens path tree other := by
  induction levels generalizing path other with
  | zero => exact hs.opens_ensureFolder h
  | succ levels ih =>
    rw [makeFoldersWithin] at h
    split at h
    · rename_i hempty
      obtain rfl := Except.ok.inj h
      exact ⟨hs, .refl _ _, fun hne => absurd (by simpa using hempty) hne⟩
    split at h
    · obtain rfl := Except.ok.inj h
      exact hs.opens_makeFolder ‹_›
    · split at h
      · cases h
      · split at h
        · -- the folder above was made first
          rename_i mid hmid
          have habove := ih hmid
          have hlast := habove.sound.opens_ensureFolder h
          exact ⟨hlast.sound, (habove.grown.trans hlast.grown).weaken fun _ hp => hp.elim id id, hlast.leads⟩
        · cases h
    · split at h
      · obtain rfl := Except.ok.inj h
        exact hs.opens (eq_of_beq ‹_›)
      · cases h

theorem Sound.opens_makeFolders (hs : tree.Sound) (h : tree.makeFolders path = .ok other) : Opens path tree other :=
  hs.opens_makeFoldersWithin h

/-! ## Parts of a way -/

/-- **The way of a path goes through where its front leads.** -/
theorem Way.split (h : Way tree n p (ss ++ ss') q) (hs : tree.Sound) (hp : tree.at? p = some .folder) :
    ∃ m r, Way tree n p ss r ∧ Way tree m r ss' q := by
  generalize hall : ss ++ ss' = all at h
  induction h generalizing ss with
  | @here n p _ =>
    obtain ⟨rfl, rfl⟩ := List.append_eq_nil_iff.1 hall
    exact ⟨n, p, .here hp, .here hp⟩
  | @idle n p q s all hidle hway ih =>
    cases ss with
    | nil => exact ⟨n, p, .here hp, (show ss' = _ from hall) ▸ .idle hidle hway⟩
    | cons x ss =>
      obtain ⟨rfl, rfl⟩ := List.cons.inj hall
      obtain ⟨m, r, hfront, hback⟩ := ih hp rfl
      exact ⟨m, r, .idle hidle hfront, hback⟩
  | @up n p q all hway ih =>
    cases ss with
    | nil => exact ⟨n, p, .here hp, (show ss' = _ from hall) ▸ .up hway⟩
    | cons x ss =>
      obtain ⟨rfl, rfl⟩ := List.cons.inj hall
      obtain ⟨m, r, hfront, hback⟩ := ih (hs.parent (by simp [hp])) rfl
      exact ⟨m, r, .up hfront, hback⟩
  | @down n p q s all hidle hup hnode hway ih =>
    cases ss with
    | nil => exact ⟨n, p, .here hp, (show ss' = _ from hall) ▸ .down hidle hup hnode hway⟩
    | cons x ss =>
      obtain ⟨rfl, rfl⟩ := List.cons.inj hall
      obtain ⟨m, r, hfront, hback⟩ := ih hnode rfl
      exact ⟨m, r, .down hidle hup hnode hfront, hback⟩
  | @link n p q s target all hidle hup hnode htarget hway ih =>
    cases ss with
    | nil => exact ⟨n + 1, p, .here hp, (show ss' = _ from hall) ▸ .link hidle hup hnode htarget hway⟩
    | cons x ss =>
      obtain ⟨rfl, rfl⟩ := List.cons.inj hall
      have hstart : tree.at? (if isAbsolute target then [] else p) = some .folder := by
        split
        · rfl
        · exact hp
      obtain ⟨m, r, hfront, hback⟩ := ih hstart (List.append_assoc ..)
      exact ⟨m, r, .link hidle hup hnode htarget hfront, hback⟩

/-- **No link stands at or below a place.** -/
def Unlinked (tree : FileTree) (r : Place) : Prop := ∀ p target, r <+: p → tree.at? p ≠ some (.link target)

theorem Unlinked.mono (h : Unlinked tree r) (hgrown : Grown written tree other) : Unlinked other r :=
  fun p target hp htarget => h p target hp ((hgrown.link_iff p target).1 htarget)

variable {dir names : Place}

/-- **Names lead straight down where no link stands.** -/
theorem Way.straight (h : Way tree n p dir q) (hdir : ∀ s ∈ dir, Proper s) (hlink : Unlinked tree p) : q = p ++ dir := by
  induction h with
  | here _ => rw [List.append_nil]
  | idle hidle _ _ =>
    have hname := (hdir _ (List.mem_cons_self ..)).1
    rw [hidle] at hname
    cases hname
  | up _ _ => exact absurd rfl (hdir _ (List.mem_cons_self ..)).2.1
  | @down n p q s ss _ _ _ _ ih =>
    have hbelow : Unlinked tree (p ++ [s]) := fun x target hx => hlink x target ((List.prefix_append ..).trans hx)
    rw [ih (fun x hx => hdir x (List.mem_cons_of_mem _ hx)) hbelow, List.append_assoc]
    rfl
  | @link n p q s target ss _ _ hnode _ _ _ => exact absurd hnode (hlink _ target (List.prefix_append ..))

theorem Leads.unique (h : Leads tree path p) (h' : Leads tree path q) : p = q := by
  have hsame := h.locate.symm.trans h'.locate
  injection hsame with hfound
  injection hfound

/-- **A path that goes on behind another leads below it**, where no link stands. -/
theorem Leads.straight (h : Leads tree path q) (hs : tree.Sound) (hbase : base ≠ "")
    (hsteps : steps path = steps base ++ names) (hnames : ∀ s ∈ names, Proper s) :
    ∃ r, Leads tree base r ∧ (Unlinked tree r → q = r ++ names) := by
  have hway : Way tree 40 [] (segments base ++ names) q := h.2.congr (by
    rw [List.filter_append, Path.filter_proper hnames]
    exact hsteps.symm)
  obtain ⟨m, r, hfront, hback⟩ := hway.split hs rfl
  exact ⟨r, ⟨hbase, hfront⟩, hback.straight hnames⟩

/-- **A file is found where its path says**, below a folder in which no link stands. -/
theorem Sound.place_of_locate (hs : tree.Sound) (hl : tree.locate true path = .ok (.found p (.file contents)))
    (hbase : Leads tree base r) (hlink : Unlinked tree r) (hsteps : steps path = steps base ++ names)
    (hnames : ∀ s ∈ names, Proper s) : p = r ++ names := by
  obtain ⟨hpath, hlanded⟩ := hs.landed_path hl
  have hnode : tree.at? p = some (.file contents) := hlanded.node
  have hne : p ≠ [] := by
    rintro rfl
    cases hnode
  -- with a folder instead of the file the path has a way there
  have hsound : (tree.put p .folder).Sound := hs.put hne hlanded.proper hlanded.parent fun _ => rfl
  have hkeep : Keeps tree (tree.put p .folder) := by
    intro q
    rw [at?_put hne]
    by_cases hq : q = p
    · simp [hq, hnode]
    · simp [hq]
  have hway : Leads (tree.put p .folder) path p := ⟨hpath, hlanded.way _ hkeep (by rw [at?_put hne, spot, if_pos rfl])⟩
  obtain ⟨r', hr', hstraight⟩ := hway.straight hsound hbase.1 hsteps hnames
  obtain rfl := hr'.unique (hbase.mono hkeep)
  refine hstraight fun q target hq htarget => ?_
  rw [at?_put hne] at htarget
  by_cases hqp : q = p
  · rw [if_pos hqp] at htarget
    cases htarget
  · rw [if_neg hqp] at htarget
    exact hlink q target hq htarget

end FileTree
end Localizer
