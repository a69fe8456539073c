import Localizer.Proofs.Stray
/-!
# Parentheses — the stretch that a load call without arguments fills

A call without arguments is written behind its callee with blank space, comments and perhaps types, then with its own
two parentheses, between which blank space and comments may stand (`Calls.Written`).  The stretch to fill starts at the
last parenthesis that opens, wherever that is.  It is the stretch between the call's own parentheses exactly if none
opens between them, in a comment (`Calls.emptyLoad_region_iff`); otherwise the comment keeps its beginning and loses its
end.
-/
namespace Localizer

open Source
open Text (byteLength Boundary)

theorem Source.Expr.stepped_of_unparen {e : Expr} (h : e.unparen.stepped = true) : e.stepped = true := by
  cases e with
  | paren => rfl
  | _ => exact h

namespace Calls

/-! ## The last parenthesis that opens -/

theorem lastOpen_eq_none : ∀ {cs : List Char}, '(' ∉ cs → lastOpen cs = none
  | [], _ => rfl
  | c :: cs, h => by
    rw [List.mem_cons, not_or] at h
    rw [lastOpen, lastOpen_eq_none h.2]
    exact if_neg (by simpa using Ne.symm h.1)

theorem lastOpen_append {back : List Char} (h : '(' ∉ back) : ∀ front : List Char,
    lastOpen (front ++ '(' :: back) = some (byteLength front)
  | [] => by rw [List.nil_append, lastOpen, lastOpen_eq_none h]; rfl
  | c :: front => by rw [List.cons_append, lastOpen, lastOpen_append h front]; rfl

/-- **A text up to its last opening parenthesis**, and what is left of it. -/
theorem exists_last_open : ∀ cs : List Char, ∃ passed kept, cs = passed ++ kept ∧ '(' ∉ kept ∧
    (passed = [] ∨ ∃ hidden, passed = hidden ++ ['('])
  | [] => ⟨[], [], rfl, List.not_mem_nil, .inl rfl⟩
  | c :: cs => by
    obtain ⟨passed, kept, rfl, hkept, rfl | ⟨hidden, rfl⟩⟩ := exists_last_open cs
    · by_cases hc : c = '('
      · exact ⟨[c], kept, rfl, hkept, .inr ⟨[], by rw [hc]; rfl⟩⟩
      · exact ⟨[], c :: kept, rfl, by simpa [Ne.symm hc] using hkept, .inl rfl⟩
    · exact ⟨c :: hidden ++ ['('], kept, rfl, hkept, .inr ⟨c :: hidden, rfl⟩⟩

/-! ## How a call without arguments is written -/

/-- **The text from a callee to the end of its call**, without arguments. -/
structure Written (script : Script) (span : Span) (callee : Expr) (before between : List Char) : Prop where
  slice : script.slice ⟨callee.span.hi, span.hi⟩ = before ++ '(' :: (between ++ [')'])
  lead : Lead before
  trivia : Trivia between

section Text

variable {script : Script} {span : Span} {callee : Expr} {body front before between back : List Char}

/-- **What is filled** reaches from the last parenthesis that opens to the one that ends the call. -/
theorem argumentSpan?_last (hbody : script.Body body) (htext : body = front ++ (before ++ '(' :: (between ++ ')' :: back)))
    (hlo : callee.span.hi = byteLength front)
    (hhi : span.hi = callee.span.hi + byteLength before + byteLength between + 2) (h : '(' ∉ between) :
    argumentSpan? script span callee = some ⟨callee.span.hi + byteLength before + 1, span.hi - 1⟩ := by
  have hone : '('.utf8Size = 1 := by decide
  have hclose : script.slice ⟨span.hi - 1, span.hi⟩ = [')'] := by
    refine hbody.slice (front ++ (before ++ '(' :: between)) [')'] back (by simp [htext]) ?_ ?_
    · simp only [Text.byteLength_append, byteLength, hone]
      omega
    · simp only [Text.byteLength_append, byteLength, hone, show ')'.utf8Size = 1 by decide]
      omega
  have hopen : script.slice ⟨callee.span.hi, span.hi - 1⟩ = before ++ '(' :: between := by
    refine hbody.slice front (before ++ '(' :: between) (')' :: back) (by simp [htext]) hlo ?_
    simp only [Text.byteLength_append, byteLength, hone]
    omega
  unfold argumentSpan?
  rw [hclose, hopen, lastOpen_append h, if_neg (by simp; omega)]
  rfl

theorem byteLength_written (before between : List Char) :
    byteLength (before ++ '(' :: (between ++ [')'])) = byteLength before + byteLength between + 2 := by
  simp only [Text.byteLength_append, byteLength, show '('.utf8Size = 1 by decide, show ')'.utf8Size = 1 by decide]
  omega

theorem exists_written (hbody : script.Body body) (h : Unfilled body callee.span.hi span.hi) :
    ∃ before between, Written script span callee before between := by
  obtain ⟨front, before, between, back, htext, hfront, hhi, hlead, htrivia⟩ := h
  refine ⟨before, between, hbody.slice front _ back (by simp [htext]) hfront.symm ?_, hlead, htrivia⟩
  rw [byteLength_written]
  dsimp only
  omega

/-- **A call without arguments in the text**, however its parentheses are made out. -/
theorem Written.text (h : Written script span callee before between) (hbody : script.Body body)
    (hunfilled : Unfilled body callee.span.hi span.hi) : ∃ front back,
      body = front ++ (before ++ '(' :: (between ++ ')' :: back)) ∧ callee.span.hi = byteLength front ∧
        span.hi = callee.span.hi + byteLength before + byteLength between + 2 := by
  obtain ⟨front, before', between', back, htext, hfront, hhi, -, -⟩ := hunfilled
  have hslice : script.slice ⟨callee.span.hi, span.hi⟩ = before' ++ '(' :: (between' ++ [')']) := by
    refine hbody.slice front _ back (by simp [htext]) hfront.symm ?_
    rw [byteLength_written]
    dsimp only
    omega
  have hsame := h.slice.symm.trans hslice
  refine ⟨front, back, ?_, hfront.symm, ?_⟩
  · rw [htext]
    simpa using congrArg (· ++ back) hsame.symm
  · have hbytes := congrArg byteLength hsame
    rw [byteLength_written, byteLength_written] at hbytes
    omega

theorem Written.slice_within (h : Written script span callee before between) (hbody : script.Body body)
    (hunfilled : Unfilled body callee.span.hi span.hi) {passed kept : List Char} (hbetween : between = passed ++ kept) :
    script.slice ⟨callee.span.hi + byteLength before + 1 + byteLength passed, span.hi - 1⟩ = kept ∧
      Boundary body (callee.span.hi + byteLength before + 1 + byteLength passed) := by
  obtain ⟨front, back, htext, hlo, hhi⟩ := h.text hbody hunfilled
  have hsplit : body = front ++ (before ++ '(' :: passed) ++ (kept ++ ')' :: back) := by simp [htext, hbetween]
  have hfront : byteLength (front ++ (before ++ '(' :: passed)) =
      callee.span.hi + byteLength before + 1 + byteLength passed := by
    simp only [Text.byteLength_append, byteLength, show '('.utf8Size = 1 by decide]
    omega
  refine ⟨hbody.slice _ kept (')' :: back) hsplit hfront.symm ?_, _, _, hsplit, hfront⟩
  rw [hfront]
  rw [hbetween, Text.byteLength_append] at hhi
  dsimp only
  omega

theorem Written.argumentSpan? (h : Written script span callee before between) (hbody : script.Body body)
    (hunfilled : Unfilled body callee.span.hi span.hi) {passed kept : List Char} (hbetween : between = passed ++ kept)
    (hkept : '(' ∉ kept) (hpassed : passed = [] ∨ ∃ hidden, passed = hidden ++ ['(']) :
    argumentSpan? script span callee =
      some ⟨callee.span.hi + byteLength before + 1 + byteLength passed, span.hi - 1⟩ := by
  obtain ⟨front, back, htext, hlo, hhi⟩ := h.text hbody hunfilled
  -- the last parenthesis that opens is the call's own one, or the one at the end of what is passed
  obtain ⟨lead, hlead, hbytes⟩ : ∃ lead, before ++ '(' :: passed = lead ++ ['('] ∧
      byteLength lead = byteLength before + byteLength passed := by
    rcases hpassed with rfl | ⟨hidden, rfl⟩
    · exact ⟨before, rfl, rfl⟩
    · refine ⟨before ++ '(' :: hidden, by simp, ?_⟩
      simp only [Text.byteLength_append, byteLength]
      omega
  have hsplit : body = front ++ (lead ++ '(' :: (kept ++ ')' :: back)) := by
    have hmid : before ++ '(' :: (between ++ ')' :: back) = lead ++ '(' :: (kept ++ ')' :: back) := by
      simpa [hbetween] using congrArg (· ++ (kept ++ ')' :: back)) hlead
    rw [htext, hmid]
  rw [hbetween, Text.byteLength_append] at hhi
  rw [argumentSpan?_last hbody hsplit hlo (by omega) hkept, hbytes]
  simp only [Option.some.injEq, Span.mk.injEq, and_true]
  omega

end Text

/-! ## What is filled -/

theorem Names.IsLoad.stepped {names : Names} {span : Span} {callee : Expr} {args : List Expr}
    (h : names.IsLoad (.call span callee args)) : callee.stepped = true := by
  refine Expr.stepped_of_unparen ?_
  cases h with
  | bundle hmember =>
    obtain ⟨memberSpan, object, id, hcallee, -⟩ := hmember
    rw [hcallee]
    rfl
  | config hcall =>
    rw [hcall]
    rfl

/-- **What a load call without arguments is filled from.**  Behind its callee stand blank space, comments and perhaps
types, then the call's own parentheses with blank space and comments between them.  What is replaced reaches from the
last parenthesis that opens to the one that ends the call: it is the text between the call's own parentheses if none
opens there in a comment, and otherwise only a part of it. -/
theorem emptyLoad_region_iff {file : String} {text : List Char} {script : Script}
    (h : Script.parse file text = .ok script) (relative : Option (List Char)) (moduleName : String) {span : Span}
    {callee : Expr} (hcall : .call span callee [] ∈ script.program.visits)
    (hload : (namesOf script.program moduleName).IsLoad (.call span callee [])) :
    (∃ before between, Written script span callee before between) ∧
    ∀ before between, Written script span callee before between →
      let own : Span := ⟨callee.span.hi + byteLength before + 1, span.hi - 1⟩
      script.slice own = between ∧
      ∃ passed kept, between = passed ++ kept ∧ '(' ∉ kept ∧ (passed = [] ∨ ∃ hidden, passed = hidden ++ ['(']) ∧
        let filled : Span := ⟨own.lo + byteLength passed, own.hi⟩
        script.slice filled = kept ∧
        emptyLoad? script (namesOf script.program moduleName).reads (.call span callee []) = some filled ∧
        ⟨script.region filled, fileReference relative⟩ ∈ (analyze script relative moduleName).patches ∧
        (script.region filled = script.region own ↔ '(' ∉ between) := by
  obtain ⟨-, -, hi, hlaid⟩ := Script.laid_of_parse h
  obtain ⟨-, body, hbody⟩ := Script.body_of_parse h
  obtain ⟨hi', hvisited⟩ := hbody.laid
  have hunfilled : Unfilled body callee.span.hi span.hi :=
    hvisited.closed (.call span callee []) (List.mem_filterMap.2 ⟨_, hcall, rfl⟩) hload.stepped
  refine ⟨exists_written hbody hunfilled, fun before between hwritten => ?_⟩
  intro own
  obtain ⟨hown, hstart⟩ := hwritten.slice_within hbody hunfilled (List.nil_append between).symm
  obtain ⟨passed, kept, hbetween, hkept, hpassed⟩ := exists_last_open between
  obtain ⟨hslice, hcut⟩ := hwritten.slice_within hbody hunfilled hbetween
  have hfilled : emptyLoad? script (namesOf script.program moduleName).reads (.call span callee []) =
      some ⟨own.lo + byteLength passed, own.hi⟩ := by
    have hloader : isLoader (namesOf script.program moduleName).reads callee.unparen = true :=
      (isLoad_iff (.of_laid hlaid)).2 hload
    rw [emptyLoad?, hloader]
    exact hwritten.argumentSpan? hbody hunfilled hbetween hkept hpassed
  refine ⟨hown, passed, kept, hbetween, hkept, hpassed, hslice, hfilled, ?_, fun hregion => ?_, fun hnone => ?_⟩
  · rw [analyze_patches]
    refine List.mem_map.2 ⟨⟨_, fileReference relative⟩, List.mem_append_left _ (List.mem_map.2 ⟨_, ?_, rfl⟩), rfl⟩
    exact List.mem_filterMap.2 ⟨_, hcall, hfilled⟩
  · have hsame := hbody.position_inj hcut hstart (congrArg Text.Region.start hregion)
    have hnil : passed = [] := by
      by_contra hne
      have := byteLength_pos hne
      simp only [byteLength] at hsame
      omega
    rwa [hbetween, hnil]
  · have hnil : passed = [] := by
      rcases hpassed with rfl | ⟨hidden, rfl⟩
      · rfl
      · exact absurd (by simp [hbetween]) hnone
    rw [hnil]
    rfl

/-- **A call without arguments**, by where it stands and where its callee does. -/
def emptyCall? : Visit → Option (Span × Span)
  | .call span callee [] => some (span, callee.span)
  | _ => none

theorem emptyCall?_eq_some {v : Visit} {span calleeSpan : Span} (h : emptyCall? v = some (span, calleeSpan)) :
    ∃ callee, v = .call span callee [] ∧ callee.span = calleeSpan := by
  unfold emptyCall? at h
  split at h
  · cases h
    exact ⟨_, rfl, rfl⟩
  · cases h

/-- A comment between the parentheses in which another one opens: the comment is cut in two. -/
theorem emptyLoad_region_iff_comment :
    let text := "import * as n from 'm';n.loadMessageBundle<T> (/*(*/)".toList
    ∃ script own, Script.parse "a.ts" text = .ok script ∧ script.slice own = ['/', '*', '(', '*', '/'] ∧
      script.slice ⟨50, 52⟩ = ['*', '/'] ∧
      ⟨script.region ⟨50, 52⟩, fileReference none⟩ ∈ (analyze script none "m").patches ∧
      script.region ⟨50, 52⟩ ≠ script.region own := by
  intro text
  have hcheck : ∃ script, Script.parse "a.ts" text = .ok script ∧
      (∃ v ∈ script.program.visits, emptyCall? v = some (⟨23, 53⟩, ⟨23, 42⟩) ∧
        emptyLoad? script (namesOf script.program "m").reads v = some ⟨50, 52⟩) ∧
      script.slice ⟨42, 53⟩ = ['<', 'T', '>', ' '] ++ '(' :: (['/', '*', '(', '*', '/'] ++ [')']) ∧
      script.slice ⟨50, 52⟩ = ['*', '/'] := by
    refine exists_of_check ?_
    decide +kernel
  obtain ⟨script, hparse, ⟨v, hv, hempty, hfill⟩, hslice, hkept⟩ := hcheck
  obtain ⟨callee, rfl, hcallee⟩ := emptyCall?_eq_some hempty
  have hload : (namesOf script.program "m").IsLoad (.call ⟨23, 53⟩ callee []) := by
    obtain ⟨-, -, hi, hlaid⟩ := Script.laid_of_parse hparse
    refine (isLoad_iff (.of_laid hlaid)).1 ?_
    by_contra hother
    rw [emptyLoad?, if_neg (by simpa [isLoad] using hother)] at hfill
    cases hfill
  have hlead : Lead ([] ++ '<' :: (['T'] ++ '>' :: [' '])) := .typed .nil (.blank (.inr (by decide)) .nil)
  have htrivia : Trivia ('/' :: '*' :: (['('] ++ '*' :: '/' :: [])) := .block (by decide) .nil
  obtain ⟨hown, passed, kept, -, -, -, -, hfilled, hpatch, hregion⟩ :=
    (emptyLoad_region_iff hparse none "m" hv hload).2 _ _ ⟨by rw [hcallee]; exact hslice, hlead, htrivia⟩
  rw [← Option.some.inj (hfill.symm.trans hfilled)] at hpatch hregion
  exact ⟨script, _, hparse, hown, hkept, hpatch, fun hsame => hregion.1 hsame (by simp)⟩

end Calls
end Localizer
