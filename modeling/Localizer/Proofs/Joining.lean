import Localizer.Proofs.Singly
/-!
# Joining — which lines have no content, over a run of edits

A patch over several lines joins them into the first one and leaves the others without content.  Patches are refused
for where the last one ends only, so another one may well start on a joined line: then the line has content again,
unless a patch before it reaches over the line (`Document.joined_apply`).  Nothing else gives a joined line content, in
whatever number of steps (`Document.stays_joined_iff`).
-/
namespace Localizer

/-- **A patch joins a line to one before it.** -/
def Patch.Joins (p : Patch) (i : Nat) : Prop := p.region.start.line < i ∧ i ≤ p.region.stop.line

namespace Document

/-- **A line without content.** -/
def JoinedIn (lines : List DocumentLine) (i : Nat) : Prop := ∃ l, lines[i]? = some l ∧ l.content = none

theorem JoinedIn.lt {lines : List DocumentLine} {i : Nat} (h : JoinedIn lines i) : i < lines.length := by
  obtain ⟨l, hl, -⟩ := h
  exact (List.getElem?_eq_some_iff.1 hl).1

theorem joinedIn_iff {lines : List DocumentLine} {i : Nat} (hi : i < lines.length) :
    JoinedIn lines i ↔ (lines[i]?).bind (·.content) = none := by
  unfold JoinedIn
  rw [List.getElem?_eq_getElem hi]
  simp

theorem joinedIn_congr {a b : List DocumentLine} (h : outline a = outline b) (i : Nat) : JoinedIn a i ↔ JoinedIn b i := by
  have hlength : a.length = b.length := by simpa [outline] using congrArg List.length h
  by_cases hi : i < a.length
  · rw [joinedIn_iff hi, joinedIn_iff (hlength ▸ hi), outline_content h]
  · exact ⟨fun ha => absurd ha.lt hi, fun hb => absurd (hlength ▸ hb.lt) hi⟩

/-- **One patch** joins the lines that it reaches over, and its first line has content. -/
theorem joinedIn_splice {lines : List DocumentLine} {i : Nat} (hi : i < lines.length) (p : Patch) :
    JoinedIn (splice lines p) i ↔ p.Joins i ∨ (JoinedIn lines i ∧ p.region.start.line ≠ i) := by
  unfold splice JoinedIn Patch.Joins
  simp only [List.getElem?_mapIdx, List.getElem?_eq_getElem hi, Option.map_some, Option.some.injEq, exists_eq_left']
  by_cases hstart : i = p.region.start.line
  · rw [if_pos hstart]
    simp [hstart]
  rw [if_neg hstart]
  by_cases hwithin : p.region.start.line < i ∧ i < p.region.stop.line
  · rw [if_pos (by simpa using hwithin)]
    simp [hwithin.1, Nat.le_of_lt hwithin.2]
  rw [if_neg (by simpa using hwithin)]
  by_cases hstop : p.region.start.line < i ∧ i = p.region.stop.line
  · rw [if_pos (by simpa using hstop)]
    simp [hstop.1, Nat.le_of_eq hstop.2]
  · rw [if_neg (by simpa using hstop)]
    have hnot : ¬ (p.region.start.line < i ∧ i ≤ p.region.stop.line) := by omega
    simp [hnot, Ne.symm hstart]

/-- **Patches from the last to the first.**  The ones that start on a line come before those that reach over it. -/
theorem joinedIn_splices {i : Nat} : ∀ {ps : List Patch} {lines : List DocumentLine},
    ps.Pairwise (fun p q => q.region.start.upTo p.region.start = true) → i < lines.length →
    (JoinedIn (ps.foldl splice lines) i ↔
      (∃ p ∈ ps, p.Joins i) ∨ (JoinedIn lines i ∧ ∀ p ∈ ps, p.region.start.line ≠ i))
  | [], _, _, _ => by simp
  | p :: ps, lines, hsorted, hi => by
    have hnext : i < (splice lines p).length := by rwa [InPlace.length_splice]
    have hbefore : p.Joins i → ∀ q ∈ ps, q.region.start.line ≠ i := by
      intro hp q hq
      have hle := (Text.Position.upTo_iff _ _).1 (List.rel_of_pairwise_cons hsorted hq)
      have hlt := hp.1
      omega
    rw [List.foldl_cons, joinedIn_splices hsorted.of_cons hnext, joinedIn_splice hi]
    simp only [List.mem_cons, exists_eq_or_imp, forall_eq_or_imp]
    by_cases hp : p.Joins i
    · exact ⟨fun _ => .inl (.inl hp), fun _ => .inr ⟨.inl hp, hbefore hp⟩⟩
    · simp only [hp, false_or, and_assoc]

/-- **A line of the document without content.** -/
def Joined (d : Document) (i : Nat) : Prop := JoinedIn d.lines i

/-- **Which lines are joined after patches**, by the patches alone. -/
theorem joined_apply {d d' : Document} {patches : List Patch} (h : d.apply patches = .ok d') {i : Nat}
    (hi : i < d.lines.length) :
    d'.Joined i ↔ (∃ p ∈ patches, p.Joins i) ∨ (d.Joined i ∧ ∀ p ∈ patches, p.region.start.line ≠ i) := by
  obtain ⟨-, -, rfl⟩ := accepted_of_apply h
  unfold Joined
  rw [joinedIn_congr (outline_edits d.header.isSome _ _ _ _ rfl), joinedIn_splices ?_ hi]
  · simp only [List.mem_reverse, mem_sortPatches]
  · exact List.pairwise_reverse.2 (pairwise_sortPatches patches)

/-! ## Runs -/

/-- **The document after patches**, applied or refused. -/
def after (d : Document) (patches : List Patch) : Document :=
  match d.apply patches with
  | .ok d' => d'
  | .error _ => d

/-- **The document after one set of patches after another.** -/
def afterAll (d : Document) (batches : List (List Patch)) : Document := batches.foldl after d

/-- **Patches that give a line content**: they are applied, one starts on the line, and none reaches over it. -/
structure Revives (d : Document) (patches : List Patch) (i : Nat) : Prop where
  applied : ∃ d', d.apply patches = .ok d'
  starts : ∃ p ∈ patches, p.region.start.line = i
  clear : ∀ p ∈ patches, ¬ p.Joins i

theorem joined_after_iff {d : Document} {i : Nat} (h : d.Joined i) (patches : List Patch) :
    (d.after patches).Joined i ↔ ¬ d.Revives patches i := by
  unfold after
  cases hd : d.apply patches with
  | error e =>
    refine ⟨fun _ hrevives => ?_, fun _ => h⟩
    obtain ⟨d', hd'⟩ := hrevives.applied
    rw [hd] at hd'
    cases hd'
  | ok d' =>
    simp only
    rw [joined_apply hd h.lt]
    constructor
    · rintro (⟨p, hp, hjoins⟩ | ⟨-, hstarts⟩) hrevives
      · exact hrevives.clear p hp hjoins
      · obtain ⟨p, hp, hstart⟩ := hrevives.starts
        exact hstarts p hp hstart
    · intro hnot
      by_cases hjoins : ∃ p ∈ patches, p.Joins i
      · exact .inl hjoins
      · refine .inr ⟨h, fun p hp hstart => hnot ⟨⟨d', hd⟩, ⟨p, hp, hstart⟩, fun q hq hq' => hjoins ⟨q, hq, hq'⟩⟩⟩

/-- **A joined line stays joined up to the first patches that start on it**, are applied and do not reach over it. -/
theorem stays_joined_iff (d : Document) (i : Nat) (h : d.Joined i) (batches : List (List Patch)) :
    (∀ pre post, batches = pre ++ post → (d.afterAll pre).Joined i) ↔
      ∀ pre patches post, batches = pre ++ patches :: post → ¬ (d.afterAll pre).Revives patches i := by
  induction batches generalizing d with
  | nil =>
    refine ⟨fun _ pre patches post hsplit => by simp at hsplit, fun _ pre post hsplit => ?_⟩
    obtain ⟨rfl, rfl⟩ := List.append_eq_nil_iff.1 hsplit.symm
    exact h
  | cons batch batches ih =>
    by_cases hrevives : d.Revives batch i
    · -- both sides fail at the first step
      have hgone := mt (joined_after_iff h batch).1 (not_not_intro hrevives)
      exact ⟨fun hall => absurd (hall [batch] batches rfl) hgone,
        fun hall => absurd hrevives (hall [] batch batches rfl)⟩
    have hrest := ih (d.after batch) ((joined_after_iff h batch).2 hrevives)
    constructor
    · intro hall pre patches post hsplit
      cases pre with
      | nil =>
        obtain ⟨rfl, rfl⟩ := List.cons.inj hsplit
        exact hrevives
      | cons first pre =>
        obtain ⟨rfl, rfl⟩ := List.cons.inj hsplit
        refine hrest.1 (fun pre' post' hsplit' => ?_) pre patches post rfl
        exact hall (batch :: pre') post' (by rw [hsplit', List.cons_append])
    · intro hall pre post hsplit
      cases pre with
      | nil => exact h
      | cons first pre =>
        obtain ⟨rfl, rfl⟩ := List.cons.inj hsplit
        refine hrest.2 (fun pre' patches post' hsplit' => ?_) pre post rfl
        exact hall (batch :: pre') patches post' (by rw [hsplit', List.cons_append])

theorem stays_joined_iff_revived :
    let d : Document :=
      ⟨[⟨some ['b'], .feed, [], 0, 0⟩, ⟨none, .nothing, [], 0, 0⟩, ⟨some ['c'], .nothing, [], 0, 0⟩], none⟩
    let patches : List Patch := [⟨⟨⟨1, 0⟩, ⟨1, 0⟩⟩, ['X']⟩, ⟨⟨⟨2, 0⟩, ⟨2, 0⟩⟩, ['Y']⟩]
    (ofText ['a', '\n', 'b', '\n', 'c'] none).after [⟨⟨⟨0, 0⟩, ⟨1, 0⟩⟩, []⟩] = d ∧ d.Joined 1 ∧
      d.Revives patches 1 ∧ ¬ (d.after patches).Joined 1 ∧
      ((∀ pre post, [patches] = pre ++ post → (d.afterAll pre).Joined 1) ↔
        ∀ pre batch post, [patches] = pre ++ batch :: post → ¬ (d.afterAll pre).Revives batch 1) := by
  intro d patches
  have hjoined : d.Joined 1 := ⟨⟨none, .nothing, [], 0, 0⟩, rfl, rfl⟩
  have hsorted : sortPatches patches = patches := List.mergeSort_of_pairwise (by decide)
  have happlied : ∃ d', d.apply patches = .ok d' := by
    unfold apply
    rw [hsorted]
    exact ⟨_, rfl⟩
  have hrevives : d.Revives patches 1 := by
    refine ⟨happlied, ⟨_, List.mem_cons_self, rfl⟩, ?_⟩
    simp [patches, Patch.Joins]
  refine ⟨by decide +kernel, hjoined, hrevives, fun hstays => ?_, stays_joined_iff d 1 hjoined [patches]⟩
  exact (joined_after_iff hjoined patches).1 hstays hrevives

end Document
end Localizer
