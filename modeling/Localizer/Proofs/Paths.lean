import Localizer.Files.Disk
import Localizer.Proofs.Pieces
/-!
# Paths — the path of names below a folder

The segments of a path are the names between its slashes, and those that say something are its steps.  The path of names
below a folder has the folder's steps and then the names (`Path.steps_pathBelow`), so the part below the folder, the
last name, the folder that holds it and the path with another ending are read off the names again.
-/
namespace Localizer
namespace Path

open FileTree (pathBelow)

/-- **A name that something in a folder can have.** -/
def Proper (name : String) : Prop := isIdle name = false ∧ name ≠ ".." ∧ '/' ∉ name.toList

instance (name : String) : Decidable (Proper name) := inferInstanceAs (Decidable (_ ∧ _ ∧ _))

/-- **The segments that say something.** -/
def steps (path : String) : List String := (segments path).filter (!isIdle ·)

/-- **A path without a slash at its end.** -/
def trunk (path : String) : String :=
  if path.toList.getLast? = some '/' then String.ofList path.toList.dropLast else path

/-- **What a path starts with**, apart from its steps. -/
def lead (path : String) : List Component :=
  if isAbsolute path then [.root] else if (segments path).head? = some "." then [.here] else []

theorem segments_ne_nil (path : String) : segments path ≠ [] := by
  rw [segments, Ne, List.map_eq_nil_iff]
  exact Text.pieces_ne_nil _ _

theorem segments_slash (a b : String) : segments (a ++ "/" ++ b) = segments a ++ segments b := by
  have hchars : (a ++ "/" ++ b).toList = a.toList ++ '/' :: b.toList := by simp
  rw [segments, hchars, Text.pieces_part, List.map_append]
  rfl

theorem joinSegments_segments (path : String) : joinSegments (segments path) = path := by
  have hid : String.toList ∘ String.ofList = id := funext fun _ => String.toList_ofList
  rw [joinSegments, segments, List.map_map, hid, List.map_id, Text.joined_pieces, String.ofList_toList]

theorem segments_joinSegments {ss : List String} (hne : ss ≠ []) (h : ∀ s ∈ ss, '/' ∉ s.toList) :
    segments (joinSegments ss) = ss := by
  rw [segments, joinSegments, String.toList_ofList, Text.pieces_joined, List.map_map]
  · have hid : String.ofList ∘ String.toList = id := funext fun _ => String.ofList_toList
    rw [hid, List.map_id]
  · rwa [Ne, List.map_eq_nil_iff]
  · intro cs hcs c hc hslash
    obtain ⟨s, hs, rfl⟩ := List.mem_map.1 hcs
    exact h s hs (hslash ▸ hc)

theorem slash_not_mem_segment {path s : String} (h : s ∈ segments path) : '/' ∉ s.toList := by
  obtain ⟨cs, hcs, rfl⟩ := List.mem_map.1 h
  rw [String.toList_ofList]
  exact Text.not_mem_piece hcs

theorem joinSegments_append {a b : List String} (ha : a ≠ []) (hb : b ≠ []) :
    joinSegments (a ++ b) = joinSegments a ++ "/" ++ joinSegments b := by
  refine String.toList_inj.1 ?_
  simp only [joinSegments, String.toList_ofList, String.toList_append, List.map_append]
  exact Text.joined_append (by simpa using ha) (by simpa using hb)

/-- **What is written behind a path belongs to its last segment.** -/
theorem joinSegments_concat (ss : List String) (s ending : String) :
    joinSegments (ss ++ [s]) ++ ending = joinSegments (ss ++ [s ++ ending]) := by
  have hone : ∀ x : String, joinSegments [x] = x := fun x => by simp [joinSegments, Text.joined]
  by_cases hss : ss = []
  · simp [hss, hone]
  · rw [joinSegments_append hss (by simp), joinSegments_append hss (by simp), hone, hone, String.append_assoc]

theorem eq_trunk_slash {path : String} (h : path.toList.getLast? = some '/') : path = trunk path ++ "/" := by
  obtain ⟨cs, hcs⟩ := List.getLast?_eq_some_iff.1 h
  refine String.toList_inj.1 ?_
  rw [trunk, if_pos h, hcs, String.toList_append, String.toList_ofList, List.dropLast_concat]
  rfl

theorem trunk_eq {path : String} (h : path.toList.getLast? ≠ some '/') : trunk path = path := if_neg h

theorem join_eq {base path : String} (hbase : base ≠ "") (hpath : isAbsolute path = false) :
    join base path = trunk base ++ "/" ++ path := by
  rw [join, if_neg (by simp [hpath, hbase])]
  by_cases hlast : base.toList.getLast? = some '/'
  · rw [if_pos (by simpa using hlast), ← eq_trunk_slash hlast]
  · rw [if_neg (by simpa using hlast), trunk_eq hlast]

theorem segments_trunk (path : String) :
    segments path = segments (trunk path) ∨ segments path = segments (trunk path) ++ [""] := by
  by_cases hlast : path.toList.getLast? = some '/'
  · right
    have hempty := segments_slash (trunk path) ""
    rwa [String.append_empty, ← eq_trunk_slash hlast] at hempty
  · exact Or.inl (by rw [trunk_eq hlast])

theorem steps_trunk (path : String) : (segments (trunk path)).filter (!isIdle ·) = steps path := by
  rcases segments_trunk path with h | h
  · rw [steps, h]
  · rw [steps, h, List.filter_append]
    simp [isIdle]

theorem steps_slashes {slashes : List Char} (h : ∀ c ∈ slashes, c = '/') (cs : List Char) :
    steps (String.ofList (cs ++ slashes)) = steps (String.ofList cs) := by
  induction slashes generalizing cs with
  | nil => rw [List.append_nil]
  | cons c slashes ih =>
    obtain rfl := h c (List.mem_cons_self ..)
    have hone : String.ofList (cs ++ ['/']) = String.ofList cs ++ "/" ++ "" := String.toList_inj.1 (by simp)
    rw [List.append_cons, ih (fun d hd => h d (List.mem_cons_of_mem _ hd)), hone, steps, segments_slash,
      List.filter_append]
    exact List.append_nil _

theorem withoutSlashes_spec {path : String} (h : path ≠ "") :
    FileTree.withoutSlashes path ≠ "" ∧ steps (FileTree.withoutSlashes path) = steps path := by
  cases hcs : path.toList with
  | nil => exact absurd (String.toList_eq_nil_iff.1 hcs) h
  | cons c cs =>
    have hpath : path = String.ofList (c :: (cs.reverse.dropWhile (· == '/')).reverse ++
        (cs.reverse.takeWhile (· == '/')).reverse) := by
      rw [List.cons_append, ← List.reverse_append, List.takeWhile_append_dropWhile, List.reverse_reverse, ← hcs,
        String.ofList_toList]
    have hslashes : ∀ d ∈ (cs.reverse.takeWhile (· == '/')).reverse, d = '/' := fun d hd =>
      eq_of_beq (List.all_eq_true.1 (List.all_takeWhile) d (List.mem_reverse.1 hd))
    rw [FileTree.withoutSlashes, hcs]
    simp only
    refine ⟨by simp, ?_⟩
    conv => rhs; rw [hpath, steps_slashes hslashes]

theorem head?_segments_of_isAbsolute {path : String} (h : isAbsolute path = true) :
    (segments path).head? = some "" := by
  obtain ⟨cs, hcs⟩ := List.head?_eq_some_iff.1 (eq_of_beq h)
  rw [segments, hcs, Text.pieces_separator]
  rfl

theorem isAbsolute_of_head? {path : String} (hne : path ≠ "") (h : (segments path).head? = some "") :
    isAbsolute path = true := by
  cases hcs : path.toList with
  | nil => exact absurd (String.toList_eq_nil_iff.1 hcs) hne
  | cons c cs =>
    rw [isAbsolute, hcs]
    by_cases hc : c = '/'
    · rw [hc]
      rfl
    · obtain ⟨q, ps, hq⟩ := List.exists_cons_of_ne_nil (Text.pieces_ne_nil '/' cs)
      rw [segments, hcs, Text.pieces, if_neg (by simpa using hc), hq] at h
      simp [Text.consPiece] at h

/-! ## Components -/

theorem components_eq (path : String) : components path = lead path ++ (steps path).map componentOf := by
  unfold components lead steps
  by_cases habs : isAbsolute path = true
  · simp [habs]
  · simp only [habs, Bool.false_eq_true, if_false]
    cases hss : segments path with
    | nil => rfl
    | cons s ss =>
      by_cases hs : s = "."
      · subst hs
        rfl
      · rw [if_neg (by simpa using hs)]
        split
        · rename_i heq
          exact absurd (List.cons.inj heq).1 hs
        · rfl

theorem componentOf_inj {a b : String} (h : componentOf a = componentOf b) : a = b := by
  unfold componentOf at h
  split at h <;> split at h <;> simp_all

/-- **What a path starts with can be read off its components.** -/
theorem filter_components (path : String) : (components path).filter (·.rank < 2) = lead path := by
  have hlead : (lead path).filter (·.rank < 2) = lead path := by
    unfold lead
    split
    · rfl
    · split <;> rfl
  have hsteps : ((steps path).map componentOf).filter (·.rank < 2) = [] := by
    refine List.filter_eq_nil_iff.2 fun c hc => ?_
    obtain ⟨s, -, rfl⟩ := List.mem_map.1 hc
    unfold componentOf
    split <;> simp [Component.rank]
  rw [components_eq, List.filter_append, hlead, hsteps, List.append_nil]

theorem components_inj {a b : String} (h : components a = components b) : lead a = lead b ∧ steps a = steps b := by
  have hlead : lead a = lead b := by rw [← filter_components, ← filter_components, h]
  rw [components_eq, components_eq, hlead] at h
  exact ⟨hlead, (List.map_inj_right fun _ _ => componentOf_inj).1 (List.append_cancel_left h)⟩

/-- **Only the empty path has no components.** -/
theorem components_ne_nil {path : String} (h : path ≠ "") : components path ≠ [] := by
  obtain ⟨s, ss, hss⟩ := List.exists_cons_of_ne_nil (segments_ne_nil path)
  intro hnil
  rw [components_eq, List.append_eq_nil_iff, List.map_eq_nil_iff] at hnil
  have habs : isAbsolute path = false := by
    refine Bool.eq_false_iff.2 fun habs => ?_
    simp [lead, habs] at hnil
  have hhere : s ≠ "." := by
    intro hs
    simp [lead, habs, hss, hs] at hnil
  have hempty : s ≠ "" := by
    intro hs
    rw [isAbsolute_of_head? h (by rw [hss, hs]; rfl)] at habs
    cases habs
  simp [steps, hss, isIdle, hhere, hempty] at hnil

/-! ## Names below a folder -/

theorem Proper.ne_empty {name : String} (h : Proper name) : name ≠ "" := fun he => by simp [Proper, isIdle, he] at h

theorem isAbsolute_joinSegments {names : Place} (hne : names ≠ []) (h : ∀ n ∈ names, Proper n) :
    isAbsolute (joinSegments names) = false := by
  refine Bool.eq_false_iff.2 fun habs => ?_
  have hhead := head?_segments_of_isAbsolute habs
  rw [segments_joinSegments hne fun n hn => (h n hn).2.2] at hhead
  exact (h "" (List.mem_of_head? hhead)).ne_empty rfl

variable {base : String} {names dir : Place} {name : String}

theorem pathBelow_eq (hbase : base ≠ "") (hne : names ≠ []) (h : ∀ n ∈ names, Proper n) :
    pathBelow base names = trunk base ++ "/" ++ joinSegments names :=
  join_eq hbase (isAbsolute_joinSegments hne h)

theorem segments_pathBelow (hbase : base ≠ "") (hne : names ≠ []) (h : ∀ n ∈ names, Proper n) :
    segments (pathBelow base names) = segments (trunk base) ++ names := by
  rw [pathBelow_eq hbase hne h, segments_slash, segments_joinSegments hne fun n hn => (h n hn).2.2]

theorem filter_proper (h : ∀ n ∈ names, Proper n) : names.filter (!isIdle ·) = names :=
  List.filter_eq_self.2 fun n hn => by rw [(h n hn).1]; rfl

theorem steps_pathBelow (hbase : base ≠ "") (hne : names ≠ []) (h : ∀ n ∈ names, Proper n) :
    steps (pathBelow base names) = steps base ++ names := by
  rw [steps, segments_pathBelow hbase hne h, List.filter_append, steps_trunk, filter_proper h]

theorem lead_pathBelow (hbase : base ≠ "") (hne : names ≠ []) (h : ∀ n ∈ names, Proper n) :
    lead (pathBelow base names) = lead base := by
  obtain ⟨s, ss, hss⟩ := List.exists_cons_of_ne_nil (segments_ne_nil (trunk base))
  have hhead : (segments (pathBelow base names)).head? = (segments base).head? := by
    rw [segments_pathBelow hbase hne h, hss]
    rcases segments_trunk base with heq | heq <;> rw [heq, hss] <;> rfl
  have hpath : pathBelow base names ≠ "" := by
    rw [pathBelow_eq hbase hne h]
    simp
  have habs : isAbsolute (pathBelow base names) = isAbsolute base := by
    rw [Bool.eq_iff_iff]
    constructor
    · intro ha
      exact isAbsolute_of_head? hbase (hhead ▸ head?_segments_of_isAbsolute ha)
    · intro ha
      exact isAbsolute_of_head? hpath (hhead ▸ head?_segments_of_isAbsolute ha)
  rw [lead, lead, habs, hhead]

theorem pathBelow_inj {names' : Place} (hbase : base ≠ "") (hne : names ≠ []) (h : ∀ n ∈ names, Proper n)
    (hne' : names' ≠ []) (h' : ∀ n ∈ names', Proper n) (heq : pathBelow base names = pathBelow base names') :
    names = names' := by
  have hss := congrArg segments heq
  rw [segments_pathBelow hbase hne h, segments_pathBelow hbase hne' h'] at hss
  exact List.append_cancel_left hss

theorem dropSteps_idle {s : String} (hs : isIdle s = true) (n : Nat) (ss : List String) :
    dropSteps n (s :: ss) = dropSteps n ss := by
  cases n <;> rw [dropSteps, dropSteps, List.dropWhile_cons_of_pos hs]

theorem dropWhile_proper (h : ∀ n ∈ names, Proper n) : names.dropWhile isIdle = names := by
  cases names with
  | nil => rfl
  | cons n names => exact List.dropWhile_cons_of_neg (by simp [(h n (List.mem_cons_self ..)).1])

/-- **The names are found again behind the steps of the folder.** -/
theorem dropSteps_append (h : ∀ n ∈ names, Proper n) (front : List String) :
    dropSteps (front.filter (!isIdle ·)).length (front ++ names) = names := by
  induction front with
  | nil => exact dropWhile_proper h
  | cons s front ih =>
    by_cases hs : isIdle s = true
    · rw [List.filter_cons_of_neg (by simp [hs]), List.cons_append, dropSteps_idle hs, ih]
    · rw [List.filter_cons_of_pos (by simp [hs]), List.length_cons, dropSteps, List.cons_append,
        List.dropWhile_cons_of_neg hs]
      exact ih

theorem trimmedSegments_pathBelow (hbase : base ≠ "") (hne : names ≠ []) (h : ∀ n ∈ names, Proper n) :
    trimmedSegments (pathBelow base names) = segments (trunk base) ++ names := by
  obtain ⟨s, ss, hss⟩ := List.exists_cons_of_ne_nil (segments_ne_nil (trunk base))
  have hkept : (ss ++ names).reverse.dropWhile isIdle = (ss ++ names).reverse := by
    obtain ⟨n, rest, hrest⟩ := List.exists_cons_of_ne_nil (List.reverse_ne_nil_iff.2 hne)
    have hn : n ∈ names := List.mem_reverse.1 (hrest ▸ List.mem_cons_self ..)
    rw [List.reverse_append, hrest]
    exact List.dropWhile_cons_of_neg (by simp [(h n hn).1])
  rw [trimmedSegments, segments_pathBelow hbase hne h, hss, List.cons_append]
  simp only [hkept, List.reverse_reverse]

theorem below?_pathBelow (hbase : base ≠ "") (hne : names ≠ []) (h : ∀ n ∈ names, Proper n) :
    below? base (pathBelow base names) = some (joinSegments names) := by
  have hprefix : (components base).isPrefixOf (components (pathBelow base names)) = true := by
    rw [List.isPrefixOf_iff_prefix, components_eq, components_eq, lead_pathBelow hbase hne h,
      steps_pathBelow hbase hne h, List.map_append, ← List.append_assoc]
    exact List.prefix_append ..
  have hdrop := dropSteps_append h (segments (trunk base))
  rw [steps_trunk] at hdrop
  simp only [below?, hprefix, if_true, trimmedSegments_pathBelow hbase hne h]
  refine congrArg (fun ss => some (joinSegments ss)) ?_
  by_cases habs : isAbsolute base = true
  · simpa [components_eq, lead, habs] using hdrop
  obtain ⟨s, ss, hss⟩ := List.exists_cons_of_ne_nil (segments_ne_nil (trunk base))
  have hhead : (segments base).head? = some s := by
    rcases segments_trunk base with heq | heq <;> rw [heq, hss] <;> rfl
  by_cases hs : s = "."
  · subst hs
    rw [hss, List.cons_append, dropSteps_idle rfl] at hdrop
    simpa [components_eq, lead, habs, hhead, hss] using hdrop
  · have hcomponents : components base = (steps base).map componentOf := by
      simp [components_eq, lead, habs, hhead, hs]
    have hstep : ∀ c ∈ components base, c ≠ .root ∧ c ≠ .here := by
      rw [hcomponents]
      intro c hc
      obtain ⟨s, -, rfl⟩ := List.mem_map.1 hc
      unfold componentOf
      split <;> simp
    have hlength : (components base).length = (steps base).length := by rw [hcomponents, List.length_map]
    split
    · rename_i hnil
      exact absurd hnil (components_ne_nil hbase)
    · rename_i hroot
      exact absurd rfl (hstep .root (hroot ▸ List.mem_cons_self ..)).1
    · rename_i hhere
      exact absurd rfl (hstep .here (hhere ▸ List.mem_cons_self ..)).2
    · rw [hlength, hdrop]

theorem relativeTo_pathBelow (hbase : base ≠ "") (hne : names ≠ []) (h : ∀ n ∈ names, Proper n)
    (hplain : '\\' ∉ (joinSegments names).toList) : relativeTo base (pathBelow base names) = joinSegments names := by
  rw [relativeTo, below?_pathBelow hbase hne h, Option.getD_some, List.map_congr_left (g := id), List.map_id,
    String.ofList_toList]
  intro c hc
  refine if_neg fun heq => ?_
  rw [eq_of_beq heq] at hc
  exact hplain hc

theorem fileName?_pathBelow (hbase : base ≠ "") (h : ∀ n ∈ dir ++ [name], Proper n) :
    fileName? (pathBelow base (dir ++ [name])) = some name := by
  have hname : componentOf name = .name name := if_neg (by simpa using (h name (by simp)).2.1)
  rw [fileName?, components_eq, steps_pathBelow hbase (by simp) h, ← List.append_assoc, List.map_append,
    ← List.append_assoc, List.map_singleton, List.getLast?_concat, hname]

theorem pathBelow_append (hbase : base ≠ "") (h : ∀ n ∈ dir ++ [name], Proper n) (ending : String)
    (h' : ∀ n ∈ dir ++ [name ++ ending], Proper n) :
    pathBelow base (dir ++ [name]) ++ ending = pathBelow base (dir ++ [name ++ ending]) := by
  rw [pathBelow_eq hbase (by simp) h, pathBelow_eq hbase (by simp) h', String.append_assoc, joinSegments_concat]

theorem withoutExtension_append (hbase : base ≠ "") (h : ∀ n ∈ dir ++ [name], Proper n) (ending : String)
    (h' : ∀ n ∈ dir ++ [(splitName name).1 ++ ending], Proper n) :
    withoutExtension (pathBelow base (dir ++ [name])) ++ ending =
      pathBelow base (dir ++ [(splitName name).1 ++ ending]) := by
  have hss := segments_ne_nil (trunk base)
  have hne : segments (trunk base) ++ dir ++ [(splitName name).1] ≠ [""] := by
    intro heq
    have hlength := congrArg List.length heq
    have hpos := List.length_pos_iff.2 hss
    simp at hlength
    omega
  rw [withoutExtension, stem?, fileName?_pathBelow hbase h, Option.map_some]
  simp only
  rw [trimmedSegments_pathBelow hbase (by simp) h, ← List.append_assoc, List.dropLast_concat, ofSegments,
    if_neg (by simpa using hne), joinSegments_concat, List.append_assoc,
    joinSegments_append hss (by simp), joinSegments_segments, pathBelow_eq hbase (by simp) h']

theorem filter_dropWhile (ss : List String) : (ss.dropWhile isIdle).filter (!isIdle ·) = ss.filter (!isIdle ·) := by
  induction ss with
  | nil => rfl
  | cons s ss ih =>
    by_cases hs : isIdle s = true
    · rw [List.dropWhile_cons_of_pos hs, ih, List.filter_cons_of_neg (by simp [hs])]
    · rw [List.dropWhile_cons_of_neg hs]

theorem steps_ofSegments {ss : List String} (hne : ss ≠ []) (h : ∀ s ∈ ss, '/' ∉ s.toList) :
    steps (ofSegments ss) = ss.filter (!isIdle ·) := by
  unfold ofSegments
  split
  · rename_i hroot
    rw [eq_of_beq hroot]
    decide
  · rw [steps, segments_joinSegments hne h]

theorem ofSegments_ne_empty {ss : List String} (hne : ss ≠ []) (h : ∀ s ∈ ss, '/' ∉ s.toList) :
    ofSegments ss ≠ "" := by
  unfold ofSegments
  split
  · decide
  · rename_i hroot
    intro hempty
    have hss := segments_joinSegments hne h
    rw [hempty] at hss
    exact hroot (by rw [← hss]; rfl)

/-- **The folder that holds a name has the steps before it.** -/
theorem parent?_pathBelow (hbase : base ≠ "") (h : ∀ n ∈ dir ++ [name], Proper n) :
    ∃ parent, parent? (pathBelow base (dir ++ [name])) = some parent ∧ parent ≠ "" ∧ steps parent = steps base ++ dir := by
  obtain ⟨s, ss, hss⟩ := List.exists_cons_of_ne_nil (segments_ne_nil (trunk base))
  let kept := ((ss ++ dir).reverse.dropWhile isIdle).reverse
  have hsegment : ∀ x ∈ s :: ss, '/' ∉ x.toList := fun x hx => slash_not_mem_segment (hss ▸ hx)
  have hslash : ∀ x ∈ s :: kept, '/' ∉ x.toList := by
    intro x hx
    rcases List.mem_cons.1 hx with rfl | hx
    · exact hsegment x (List.mem_cons_self ..)
    · have hmem : x ∈ ss ++ dir := List.mem_reverse.1 ((List.dropWhile_sublist _).subset (List.mem_reverse.1 hx))
      rcases List.mem_append.1 hmem with hmem | hmem
      · exact hsegment x (List.mem_cons_of_mem _ hmem)
      · exact (h x (List.mem_append_left _ hmem)).2.2
  refine ⟨ofSegments (s :: kept), ?_, ofSegments_ne_empty (by simp) hslash, ?_⟩
  · rw [parent?, trimmedSegments_pathBelow hbase (by simp) h, hss]
    cases hcons : ss ++ (dir ++ [name]) with
    | nil => simp at hcons
    | cons x xs =>
      rw [List.cons_append, hcons]
      simp only [← hcons, ← List.append_assoc, List.dropLast_concat, kept]
  · have hdir : dir.filter (!isIdle ·) = dir := filter_proper fun n hn => h n (List.mem_append_left _ hn)
    have hkept : kept.filter (!isIdle ·) = ss.filter (!isIdle ·) ++ dir := by
      rw [List.filter_reverse, filter_dropWhile, ← List.filter_reverse, List.reverse_reverse, List.filter_append, hdir]
    rw [steps_ofSegments (by simp) hslash, ← steps_trunk, hss, List.filter_cons, List.filter_cons, hkept]
    split <;> rfl

/-! ## Endings of names -/

theorem splitName_cases (name : String) :
    splitName name = (name, none) ∨
      ∃ stem ending, splitName name = (stem, some ending) ∧ name = stem ++ "." ++ ending := by
  have hback := List.takeWhile_append_dropWhile (p := (· != '.')) (l := name.toList.reverse)
  simp only [splitName]
  split
  · exact Or.inl rfl
  · rename_i c first hfirst
    have hpoint : c = '.' := by
      have hne : name.toList.reverse.dropWhile (· != '.') ≠ [] := by simp [hfirst]
      simpa [hfirst] using List.head_dropWhile_not (· != '.') hne
    split
    · exact Or.inl rfl
    · refine Or.inr ⟨_, _, rfl, String.toList_inj.1 ?_⟩
      rw [hfirst, hpoint] at hback
      simpa using (congrArg List.reverse hback).symm

theorem slash_not_mem_stem (h : '/' ∉ name.toList) : '/' ∉ (splitName name).1.toList := by
  rcases splitName_cases name with hsplit | ⟨stem, ending, hsplit, hname⟩
  · rwa [hsplit]
  · rw [hsplit]
    rw [hname, String.toList_append, String.toList_append, List.mem_append, List.mem_append] at h
    exact fun hmem => h (Or.inl (Or.inl hmem))

theorem proper_append {ending : String} (hname : '/' ∉ name.toList) (hlong : 2 < ending.toList.length)
    (hending : '/' ∉ ending.toList) : Proper (name ++ ending) := by
  have hlength : 2 < (name ++ ending).toList.length := by
    rw [String.toList_append, List.length_append]
    omega
  refine ⟨?_, ?_, ?_⟩
  · simp only [isIdle, Bool.or_eq_false_iff, beq_eq_false_iff_ne]
    exact ⟨fun h => by simp [h] at hlength, fun h => by simp [h] at hlength⟩
  · exact fun h => by simp [h] at hlength
  · rw [String.toList_append, List.mem_append]
    exact fun h => h.elim hname hending

end Path
end Localizer
