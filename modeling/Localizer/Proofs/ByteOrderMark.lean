import Localizer.Proofs.Stray
/-!
# ByteOrderMark — a file with and without the mark before it

The mark is no part of the script, but it is part of the file: with it every position of the first line is one further
to the right, and no other position moves (`Text.positionOf_mark`).  Up to these positions each step from a script to
its new text is the same with the mark as without it: what a script asks for and what is wrong with it
(`Calls.analyze_mark`), which patches are refused and what the others make of the lines (`Document.apply_mark`), and so
the whole treatment (`extract_mark`).
-/
namespace Localizer

open Source
open Text (Position Region Boundary positionOf byteLength unitLength takeUnits dropUnits unitsOf)

/-! ## Positions -/

/-- **Where a position of a text is with the mark before the text.** -/
def Text.Position.behindMark (p : Position) : Position := if p.line = 0 then ⟨p.line, p.character + 1⟩ else p

def Text.Region.behindMark (r : Region) : Region := ⟨r.start.behindMark, r.stop.behindMark⟩

def Patch.behindMark (p : Patch) : Patch := { p with region := p.region.behindMark }

theorem utf8Size_mark : byteOrderMark.utf8Size = 3 := by decide

theorem unitsOf_mark : unitsOf byteOrderMark = 1 := by decide

namespace Text

@[simp] theorem Position.line_behindMark (p : Position) : p.behindMark.line = p.line := by
  unfold behindMark
  split
  · rfl
  · rfl

theorem Position.behindMark_of_line_ne {p : Position} (h : p.line ≠ 0) : p.behindMark = p := if_neg h

theorem Position.character_behindMark {p : Position} (h : p.line = 0) : p.behindMark.character = p.character + 1 := by
  unfold behindMark
  rw [if_pos h]

@[simp] theorem Position.before_behindMark (p q : Position) : p.behindMark.before q.behindMark = p.before q := by
  rw [Bool.eq_iff_iff, before_iff, before_iff, line_behindMark, line_behindMark]
  by_cases hp : p.line = 0
  · by_cases hq : q.line = 0
    · rw [character_behindMark hp, character_behindMark hq]
      omega
    · omega
  · by_cases hq : q.line = 0
    · omega
    · rw [behindMark_of_line_ne hp, behindMark_of_line_ne hq]

@[simp] theorem Position.upTo_behindMark (p q : Position) : p.behindMark.upTo q.behindMark = p.upTo q := by
  unfold upTo
  rw [before_behindMark]

/-- **From one unit further to the right**, the rest of the line is one further to the right. -/
theorem Position.advance_right (p : Position) (cs : List Char) (n : Nat) :
    Position.advance ⟨p.line, p.character + 1⟩ cs n =
      (p.advance cs n).map fun q => if q.line = p.line then ⟨q.line, q.character + 1⟩ else q := by
  have hnext : ∀ (p : Position) (cs : List Char) (n : Nat), Position.advance ⟨p.line + 1, 0⟩ cs n =
      (Position.advance ⟨p.line + 1, 0⟩ cs n).map
        fun q => if q.line = p.line then ⟨q.line, q.character + 1⟩ else q := by
    intro p cs n
    cases hq : Position.advance ⟨p.line + 1, 0⟩ cs n with
    | none => rfl
    | some q =>
      have hle := (Position.upTo_iff _ _).1 (Position.upTo_advance hq)
      rw [Option.map_some, if_neg (by dsimp only at hle; omega)]
  fun_induction Position.advance p cs n with
  | case1 | case2 => simp [Position.advance]
  | case3 p cs => simp [Position.advance]
  | case4 p cs n hne ih =>
    rw [Position.advance, if_neg hne]
    exact hnext p cs (n - 1)
  | case5 p cs n hcs ih =>
    rw [Position.advance]
    · exact hnext p cs n
    · exact hcs
  | case6 p cs n ih =>
    rw [Position.advance]
    exact hnext p cs n
  | case7 p c cs n hcs hr hf hc ih =>
    rw [Position.advance, if_pos hc, ← ih, Nat.add_right_comm]
    all_goals simp_all
  | case8 p c cs n hcs hr hf hc =>
    rw [Position.advance, if_neg hc]
    · rfl
    all_goals simp_all

theorem positionOf_mark (cs : List Char) (n : Nat) :
    positionOf (byteOrderMark :: cs) (n + byteOrderMark.utf8Size) = (positionOf cs n).map Position.behindMark := by
  have hadvance := Position.advance_char (show byteOrderMark ≠ '\r' by decide) (show byteOrderMark ≠ '\n' by decide)
    ⟨0, 0⟩ cs (show 0 < n + byteOrderMark.utf8Size by rw [utf8Size_mark]; omega)
  rw [positionOf_eq_advance, positionOf_eq_advance, hadvance, if_pos (Nat.le_add_left ..), Nat.add_sub_cancel, unitsOf_mark]
  exact Position.advance_right ⟨0, 0⟩ cs n

end Text

/-! ## Lines -/

namespace Document

/-- **Lines with the mark before the first one.** -/
def markFirst : List DocumentLine → List DocumentLine
  | [] => []
  | l :: ls => { l with content := l.content.map (byteOrderMark :: ·) } :: ls

def behindMark (d : Document) : Document := { d with lines := markFirst d.lines }

/-- **The first line has content.** -/
def Opens (lines : List DocumentLine) : Prop := ∃ l ls content, lines = l :: ls ∧ l.content = some content

theorem opens_ofText (text : List Char) (map : Option SourceMap) : Opens (ofText text map).lines := by
  obtain ⟨line, post, h⟩ := List.exists_cons_of_ne_nil (Text.splitLines_ne_nil text)
  unfold ofText
  rw [h, List.mapIdx_cons]
  exact ⟨_, _, _, rfl, rfl⟩

theorem ofText_mark (text : List Char) : ofText (byteOrderMark :: text) none = (ofText text none).behindMark := by
  have hsplit : Text.splitLines (byteOrderMark :: text) = Text.consContent byteOrderMark (Text.splitLines text) :=
    Text.splitLines_char (by simp [byteOrderMark]) (by simp [byteOrderMark]) text
  obtain ⟨line, post, h⟩ := List.exists_cons_of_ne_nil (Text.splitLines_ne_nil text)
  unfold ofText behindMark
  rw [hsplit, h, Text.consContent, List.mapIdx_cons, List.mapIdx_cons]
  rfl

theorem text_mark {d : Document} (h : Opens d.lines) : d.behindMark.text = byteOrderMark :: d.text := by
  obtain ⟨l, ls, content, hlines, hcontent⟩ := h
  unfold text behindMark
  rw [hlines]
  simp [markFirst, DocumentLine.text, hcontent]

theorem length_markFirst (lines : List DocumentLine) : (markFirst lines).length = lines.length := by
  cases lines <;> rfl

theorem getElem?_markFirst {lines : List DocumentLine} {i : Nat} (h : i ≠ 0) : (markFirst lines)[i]? = lines[i]? := by
  obtain ⟨j, rfl⟩ := Nat.exists_eq_succ_of_ne_zero h
  cases lines <;> rfl

theorem holds_mark {d : Document} (h : Opens d.lines) (p : Position) : d.behindMark.holds p.behindMark = d.holds p := by
  obtain ⟨l, ls, content, hlines, hcontent⟩ := h
  unfold holds behindMark
  rw [Position.line_behindMark, hlines]
  by_cases hp : p.line = 0
  · rw [hp, Position.character_behindMark hp]
    have hlength : unitLength (byteOrderMark :: content) = unitLength content + 1 := by
      rw [unitLength, unitsOf_mark, Nat.add_comm]
    simp only [markFirst, List.getElem?_cons_zero, Option.bind_some, hcontent, Option.map_some, hlength]
    rfl
  · rw [getElem?_markFirst hp, Position.behindMark_of_line_ne hp]

/-! ## Edits -/

theorem stop_mark {lines : List DocumentLine} (h : Opens lines) (p : Position) :
    dropUnits (((markFirst lines)[p.line]?).getD default).contentOrEmpty p.behindMark.character =
        dropUnits ((lines[p.line]?).getD default).contentOrEmpty p.character ∧
      (((markFirst lines)[p.line]?).getD default).ending = ((lines[p.line]?).getD default).ending := by
  by_cases hp : p.line = 0
  · obtain ⟨l, ls, content, rfl, hcontent⟩ := h
    rw [hp, Position.character_behindMark hp]
    refine ⟨?_, rfl⟩
    simp only [markFirst, List.getElem?_cons_zero, Option.getD_some, DocumentLine.contentOrEmpty, hcontent,
      Option.map_some, dropUnits, unitsOf_mark]
    rw [if_pos (Nat.le_add_left ..), Nat.add_sub_cancel]
  · rw [getElem?_markFirst hp, Position.behindMark_of_line_ne hp]
    exact ⟨rfl, rfl⟩

theorem splice_mark {lines : List DocumentLine} (h : Opens lines) (p : Patch) :
    splice (markFirst lines) p.behindMark = markFirst (splice lines p) ∧ Opens (splice lines p) := by
  obtain ⟨hsuffix, hending⟩ := stop_mark h p.region.stop
  obtain ⟨l, ls, content, rfl, hcontent⟩ := h
  have htake : ∀ n, takeUnits (byteOrderMark :: content) (n + 1) = byteOrderMark :: takeUnits content n := by
    intro n
    rw [takeUnits, unitsOf_mark, if_pos (Nat.le_add_left ..), Nat.add_sub_cancel]
  unfold splice
  simp only [Patch.behindMark, Region.behindMark, Position.line_behindMark, hsuffix, hending]
  simp only [markFirst, List.mapIdx_cons]
  by_cases hstart : p.region.start.line = 0
  · -- the first line keeps the mark, and the content before the patch
    refine ⟨?_, _, _, _, rfl, by rw [if_pos hstart.symm]⟩
    rw [if_pos hstart.symm, if_pos hstart.symm, Position.character_behindMark hstart]
    simp only [DocumentLine.contentOrEmpty, hcontent, Option.map_some, Option.getD_some, htake, List.cons_append]
    congr 2
    funext i x
    simp [hstart]
  · simp only [if_neg (Ne.symm hstart), Nat.not_lt_zero, decide_false, Bool.false_and, Bool.false_eq_true, if_false,
      Position.behindMark_of_line_ne hstart, true_and]
    exact ⟨_, _, _, rfl, hcontent⟩

theorem splices_mark (ps : List Patch) {lines : List DocumentLine} (h : Opens lines) :
    (ps.map Patch.behindMark).foldl splice (markFirst lines) = markFirst (ps.foldl splice lines) ∧
      Opens (ps.foldl splice lines) := by
  induction ps generalizing lines with
  | nil => exact ⟨rfl, h⟩
  | cons p ps ih =>
    obtain ⟨hsplice, hopens⟩ := splice_mark h p
    rw [List.map_cons, List.foldl_cons, List.foldl_cons, hsplice]
    exact ih hopens

theorem edits_unmapped : ∀ (ps : List Patch) (lines : List DocumentLine) (walk : MarkWalk),
    edits false lines walk ps = ps.foldl splice lines
  | [], _, _ => rfl
  | p :: ps, lines, walk => edits_unmapped ps (splice lines p) walk

/-! ## Patches together -/

theorem sortPatches_mark (ps : List Patch) :
    sortPatches (ps.map Patch.behindMark) = (sortPatches ps).map Patch.behindMark :=
  (List.map_mergeSort fun a _ b _ => (Position.upTo_behindMark a.region.start b.region.start).symm).symm

theorem overlap?_mark : ∀ ps : List Patch, overlap? (ps.map Patch.behindMark) =
    (overlap? ps).map fun found => (found.1.behindMark, found.2.behindMark)
  | [] | [_] => rfl
  | p :: q :: ps => by
    have hrest := overlap?_mark (q :: ps)
    rw [List.map_cons] at hrest
    simp only [List.map_cons, overlap?, Patch.behindMark, Region.behindMark, Position.upTo_behindMark] at hrest ⊢
    split
    · rfl
    · exact hrest

end Document

def EditError.behindMark : EditError → EditError
  | .reversed r => .reversed r.behindMark
  | .overlapping first second => .overlapping first.behindMark second.behindMark
  | .outside stop n => .outside stop.behindMark n

namespace Document

theorem refusal?_mark {d : Document} (h : Opens d.lines) (sorted : List Patch) :
    d.behindMark.refusal? (sorted.map Patch.behindMark) = (d.refusal? sorted).map EditError.behindMark := by
  have hfind : (sorted.map Patch.behindMark).find? (fun p => p.region.stop.before p.region.start) =
      (sorted.find? fun p => p.region.stop.before p.region.start).map Patch.behindMark := by
    have hbefore : ((fun p : Patch => p.region.stop.before p.region.start) ∘ Patch.behindMark) =
        fun p => p.region.stop.before p.region.start := funext fun p => Position.before_behindMark ..
    rw [List.find?_map, hbefore]
  unfold refusal?
  rw [hfind, overlap?_mark, List.getLast?_map]
  cases sorted.find? fun p => p.region.stop.before p.region.start with
  | some p => rfl
  | none =>
    cases overlap? sorted with
    | some found => rfl
    | none =>
      cases sorted.getLast? with
      | none => rfl
      | some p =>
        have hlength : d.behindMark.lines.length = d.lines.length := length_markFirst d.lines
        have hholds : d.behindMark.holds p.behindMark.region.stop = d.holds p.region.stop := holds_mark h p.region.stop
        simp only [Option.map_none, Option.map_some, hholds, hlength]
        split
        · rfl
        · rfl

/-- **Patches of a text without a source map** do the same with the mark before the text. -/
theorem apply_mark {d : Document} (hopens : Opens d.lines) (hheader : d.header = none) (patches : List Patch) :
    d.behindMark.apply (patches.map Patch.behindMark) =
        ((d.apply patches).map behindMark).mapError EditError.behindMark ∧
      ∀ d', d.apply patches = .ok d' → Opens d'.lines ∧ d'.header = none := by
  have hsplices := splices_mark (sortPatches patches).reverse hopens
  have hsome : d.behindMark.header.isSome = false := by
    change d.header.isSome = false
    rw [hheader]
    rfl
  simp only [apply, sortPatches_mark, refusal?_mark hopens]
  cases d.refusal? (sortPatches patches) with
  | some e => exact ⟨rfl, fun d' h => by cases h⟩
  | none =>
    simp only [Option.map_none, hsome, hheader, Option.isSome_none, edits_unmapped]
    constructor
    · rw [← List.map_reverse, show d.behindMark.lines = markFirst d.lines from rfl, hsplices.1,
        show d.behindMark.header = none from hheader]
      rfl
    · intro d' h
      cases h
      exact ⟨hsplices.2, rfl⟩

end Document

/-! ## Scripts -/

namespace Script

/-- **A script with the mark before its text.** -/
def behindMark (s : Script) : Script := ⟨byteOrderMark :: s.text, byteOrderMark.utf8Size, s.program⟩

theorem parse_mark (file : String) {code : List Char} (h : code.head? ≠ some byteOrderMark) :
    Script.parse file (byteOrderMark :: code) = (Script.parse file code).map behindMark ∧
      ∀ s, Script.parse file code = .ok s → s.text = code ∧ s.markLength = 0 := by
  have hplain : splitMark code = (0, code) := by
    cases code with
    | nil => rfl
    | cons c cs => exact if_neg fun hc => h (congrArg some (eq_of_beq hc))
  have hmarked : splitMark (byteOrderMark :: code) = (byteOrderMark.utf8Size, code) := rfl
  simp only [Script.parse, hplain, hmarked]
  cases Program.read (Dialect.ofPath file) code with
  | error e => exact ⟨rfl, fun s hs => by cases hs⟩
  | ok program =>
    refine ⟨rfl, fun s hs => ?_⟩
    cases hs
    exact ⟨rfl, rfl⟩

variable {s : Script}

theorem slice_mark (h : s.markLength = 0) : s.behindMark.slice = s.slice := by
  funext span
  have hdrop : Text.dropBytes (byteOrderMark :: s.text) (span.lo + byteOrderMark.utf8Size) =
      Text.dropBytes s.text span.lo := by
    rw [utf8Size_mark, Text.dropBytes, utf8Size_mark, if_pos (Nat.le_add_left ..), Nat.add_sub_cancel]
    exact fun h => by omega
  unfold slice behindMark Text.sliceBytes
  simp only [hdrop, h, Nat.add_zero, Nat.add_sub_add_right]

theorem position_mark (h : s.markLength = 0) {n : Nat} (hn : Boundary s.text (n + s.markLength)) :
    s.behindMark.position n = (s.position n).behindMark := by
  obtain ⟨p, hp⟩ := Text.exists_positionOf hn
  unfold position
  rw [hp]
  rw [h] at hp
  simp only [behindMark, Text.positionOf_mark]
  rw [show positionOf s.text n = some p from hp]
  rfl

end Script

/-! ## Calls -/

namespace Calls

def Problem.behindMark (p : Problem) : Problem := { p with position := p.position.behindMark }

def Analysis.behindMark (a : Analysis) : Analysis :=
  ⟨a.patches.map Patch.behindMark, a.problems.map Problem.behindMark, a.bundle⟩

/-! What is found depends on the spans of the tree and on the text there, which the mark does not change. -/

section Same

variable {s : Script} (h : s.markLength = 0)

include h

theorem entryOf_mark : entryOf s.behindMark = entryOf s := by
  funext span args
  unfold entryOf
  rw [Script.slice_mark h]

theorem sites_mark (names : Names) (visits : List Visit) : names.sites s.behindMark visits = names.sites s visits := by
  have hdirect : directSite? s.behindMark names.reads = directSite? s names.reads := by
    funext v
    unfold directSite?
    rw [entryOf_mark h]
  have hbound : boundSite? s.behindMark names.res names.bindings = boundSite? s names.res names.bindings := by
    funext v
    unfold boundSite?
    rw [entryOf_mark h]
  unfold Names.sites Names.found
  rw [hdirect, hbound]

theorem stretches_mark (names : Names) (relative : Option (List Char)) (visits : List Visit) :
    names.stretches s.behindMark relative visits = names.stretches s relative visits := by
  have hload : emptyLoad? s.behindMark names.reads = emptyLoad? s names.reads := by
    funext v
    unfold emptyLoad? argumentSpan?
    rw [Script.slice_mark h]
  unfold Names.stretches
  rw [hload, sites_mark h]

end Same

/-! Every problem is told where a part of the tree starts, and so between two characters. -/

section Starts

variable {whole : List Char} {flaw : Flaw}

theorem KeyObject.boundary_of_read {found : KeyObject} {members : List Member} (hm : ∀ m ∈ members, m.Starts whole)
    (h : KeyObject.read found members = .error flaw) : Boundary whole flaw.offset := by
  fun_induction KeyObject.read found members with
  | case1 => cases h
  | case2 _ _ _ _ _ ih | case4 _ _ _ _ _ _ _ ih | case7 _ _ _ _ _ ih =>
    exact ih (fun m hmem => hm m (List.mem_cons_of_mem _ hmem)) h
  | case3 | case5 | case6 =>
    cases h
    exact hm _ List.mem_cons_self

theorem boundary_of_keyOf {e : Expr} (hset : e.Set whole) (h : keyOf e = .error flaw) : Boundary whole flaw.offset := by
  unfold keyOf at h
  split at h
  · split at h
    · cases h
    · cases h
      exact hset.starts
  · split at h
    · rename_i hread
      cases h
      exact KeyObject.boundary_of_read hset.enclosed.2 hread
    · split at h
      · cases h
      · cases h
        exact hset.starts
  · cases h
    exact hset.starts

theorem boundary_of_entryOf {script : Script} {span : Span} {args : List Expr} (hlo : Boundary whole span.lo)
    (hset : ∀ e ∈ args, e.Set whole) (h : entryOf script span args = .error flaw) : Boundary whole flaw.offset := by
  have harg : ∀ {i : Nat} {e : Expr}, plainArg? args i = some e → e.Set whole :=
    fun he => hset _ (List.mem_of_getElem? (plainArg?_eq_some he))
  unfold entryOf at h
  split at h
  · cases h
    exact hlo
  rename_i key hkey
  split at h
  · rename_i hread
    cases h
    exact boundary_of_keyOf (harg hkey) hread
  split at h
  · cases h
    exact hlo
  · cases h
  · rename_i message _ hmessage
    cases h
    exact (harg hmessage).starts

theorem boundary_of_flaw {script : Script} {body : List Char} (hbody : script.Body body) (hp : script.program.Apart)
    {moduleName : String} (h : flaw ∈ (namesOf script.program moduleName).flaws script script.program.visits) :
    Boundary body flaw.offset := by
  rcases List.mem_append.1 h with hstray | hrefused
  · obtain ⟨place, id, hname, -, -, rfl⟩ := mem_strayReads hp hstray
    exact boundary_of_name hbody hname
  · obtain ⟨hi, hlaid⟩ := hbody.laid
    obtain ⟨site, hsite, hrefused⟩ := List.mem_filterMap.1 hrefused
    obtain ⟨place, span, callee, args, hpart, -, rfl⟩ := (mem_sites hp).1 hsite
    have hnode : .call span callee args ∈ script.program.visited :=
      List.mem_filterMap.2 ⟨_, at?_of_mem_visits.2 ⟨place, hpart⟩, rfl⟩
    obtain ⟨-, -, -, hrow⟩ := hlaid.formed _ hnode
    simp only [Site.refused?] at hrefused
    split at hrefused
    · rename_i herror
      cases hrefused
      exact boundary_of_entryOf (hlaid.starts _ hnode) hrow.set herror
    · cases hrefused

end Starts

theorem analyze_bundle (script : Script) (relative : Option (List Char)) (moduleName : String) :
    let accepted := ((namesOf script.program moduleName).sites script script.program.visits).filterMap Site.accepted?
    (analyze script relative moduleName).bundle = ⟨accepted.map (·.message), accepted.map (·.key)⟩ := by
  unfold analyze
  dsimp only
  split
  · rename_i himported
    unfold Names.sites
    rw [Names.found_eq_nil (List.isEmpty_iff.1 himported)]
    simp [Analysis.empty, sortSites, Bundle.empty]
  · rw [takeSites_bundle]
    rfl

theorem sortProblems_mark (problems : List Problem) :
    sortProblems (problems.map Problem.behindMark) = (sortProblems problems).map Problem.behindMark :=
  (List.map_mergeSort fun a _ b _ => (Position.upTo_behindMark a.position b.position).symm).symm

/-- **A script asks for the same with the mark before its text.** -/
theorem analyze_mark {s : Script} {body : List Char} (hbody : s.Body body) (hp : s.program.Apart)
    (h : s.markLength = 0) (relative : Option (List Char)) (moduleName : String) :
    analyze s.behindMark relative moduleName = (analyze s relative moduleName).behindMark := by
  have hpatches : (analyze s.behindMark relative moduleName).patches =
      (analyze s relative moduleName).patches.map Patch.behindMark := by
    rw [analyze_patches, analyze_patches, show s.behindMark.program = s.program from rfl, stretches_mark h,
      List.map_map]
    refine List.map_congr_left fun stretch hmem => ?_
    have hcuts := Names.cuts_stretches _ hbody relative stretch hmem
    simp only [Function.comp_apply, Script.patch, Script.region, Patch.behindMark, Region.behindMark,
      Script.position_mark h hcuts.lo.boundary, Script.position_mark h hcuts.hi.boundary]
  have hproblems : (analyze s.behindMark relative moduleName).problems =
      (analyze s relative moduleName).problems.map Problem.behindMark := by
    have hflaws : (namesOf s.program moduleName).flaws s.behindMark s.program.visits =
        (namesOf s.program moduleName).flaws s s.program.visits := by
      unfold Names.flaws
      rw [sites_mark h]
    rw [analyze_problems_eq, analyze_problems_eq, show s.behindMark.program = s.program from rfl, hflaws,
      ← sortProblems_mark, List.map_map]
    refine congrArg sortProblems (List.map_congr_left fun flaw hflaw => ?_)
    have hposition := Script.position_mark h (hbody.boundary (boundary_of_flaw hbody hp hflaw))
    simp only [Function.comp_apply, Flaw.problem, Problem.behindMark, hposition]
  have hbundle : (analyze s.behindMark relative moduleName).bundle = (analyze s relative moduleName).bundle := by
    rw [analyze_bundle, analyze_bundle, show s.behindMark.program = s.program from rfl, sites_mark h]
  unfold Analysis.behindMark
  rw [← hpatches, ← hproblems, ← hbundle]

end Calls

/-! ## The whole treatment -/

/-- **What becomes of a script with the mark before it.** -/
def Outcome.behindMark : Outcome → Outcome
  | .unchanged => .unchanged
  | .rejected problems => .rejected (problems.map Calls.Problem.behindMark)
  | .extracted result => .extracted { result with contents := byteOrderMark :: result.contents }

/-- **Why a script with the mark before it cannot be treated.**  The place of a parse failure is counted behind the
mark. -/
def ExtractionError.behindMark : ExtractionError → ExtractionError
  | .parse failure => .parse failure
  | .edit error => .edit error.behindMark

theorem Document.sourceMap_eq_none {d : Document} (h : d.header = none) : d.sourceMap = none := by
  unfold sourceMap
  rw [h]
  rfl

/-- **The mark makes no difference**: what a file that starts with it becomes is what the rest of the file becomes,
with the mark before the contents and the positions of the first line one further to the right. -/
theorem extract_mark (file : String) {code : List Char} (hcode : code.head? ≠ some byteOrderMark)
    {options : ExtractionOptions} (hmap : options.sourceMap = none) :
    extract file (byteOrderMark :: code) options =
      ((extract file code options).map Outcome.behindMark).mapError ExtractionError.behindMark := by
  obtain ⟨hparse, hscript⟩ := Script.parse_mark file hcode
  unfold extract
  rw [hparse]
  cases hplain : Script.parse file code with
  | error failure => rfl
  | ok s =>
    obtain ⟨-, hlength⟩ := hscript s hplain
    obtain ⟨-, body, hbody⟩ := Script.body_of_parse hplain
    obtain ⟨-, -, hi, hlaid⟩ := Script.laid_of_parse hplain
    have hanalyze := Calls.analyze_mark hbody (.of_laid hlaid) hlength options.relative options.moduleName
    obtain ⟨happly, hopens⟩ := Document.apply_mark (Document.opens_ofText code none) rfl
      (Calls.analyze s options.relative options.moduleName).patches
    simp only [Except.map, hmap, Option.bind_none, hanalyze, Calls.Analysis.behindMark, List.isEmpty_map,
      Document.ofText_mark, happly]
    split
    · rfl
    split
    · rfl
    cases hresult : (Document.ofText code none).apply (Calls.analyze s options.relative options.moduleName).patches with
    | error e => rfl
    | ok d =>
      obtain ⟨hfirst, hheader⟩ := hopens d hresult
      have hmarked : d.behindMark.header = none := hheader
      simp only [Except.mapError, Document.text_mark hfirst, Document.sourceMap_eq_none hheader,
        Document.sourceMap_eq_none hmarked]
      rfl

/-- A load call without arguments is filled in behind the mark, and a stray read is told of one further to the right. -/
theorem extract_mark_first_line :
    extract "a.js" (byteOrderMark :: "var n=require('m');n.loadMessageBundle()".toList) ⟨none, none, "m"⟩ =
        .ok (.extracted ⟨byteOrderMark :: "var n=require('m');n.loadMessageBundle(__filename)".toList, none, .empty⟩) ∧
      extract "a.js" (byteOrderMark :: "var n=require('m'),l=n.loadMessageBundle(0);f(l);".toList) ⟨none, none, "m"⟩ =
        .ok (.rejected [⟨.reference "l", ⟨0, 47⟩⟩]) := by
  have hfilled : extract "a.js" "var n=require('m');n.loadMessageBundle()".toList ⟨none, none, "m"⟩ =
      .ok (.extracted ⟨"var n=require('m');n.loadMessageBundle(__filename)".toList, none, .empty⟩) := by
    decide +kernel
  have hstray : extract "a.js" "var n=require('m'),l=n.loadMessageBundle(0);f(l);".toList ⟨none, none, "m"⟩ =
      .ok (.rejected [⟨.reference "l", ⟨0, 46⟩⟩]) := by
    decide +kernel
  refine ⟨(extract_mark "a.js" (by decide) rfl).trans ?_, (extract_mark "a.js" (by decide) rfl).trans ?_⟩
  · rw [hfilled]
    rfl
  · rw [hstray]
    rfl

end Localizer
