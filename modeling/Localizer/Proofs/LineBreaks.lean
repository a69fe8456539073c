import Localizer.Proofs.Cuts
/-!
# LineBreaks — the lines of a text are its only ones

Contents hold no line breaks, every line but the last has an ending, and no `\r` ends a line where the next one is a bare
`\n`, since a text has the two as one ending (`Text.Broken`).  The lines of a text are such (`Text.broken_splitLines`),
and such lines are found again in the text that they make (`Text.splitLines_joinLines`).  So of all pairs of contents and
endings that make a text in this way, splitting gives the only ones (`Text.splits_iff`).
-/
namespace Localizer
namespace Text

/-- **A `\r` and a bare `\n` behind it**, which a text has as one ending. -/
def Line.Fuses (a b : Line) : Prop := a.ending = .carriage ∧ b = ⟨[], .feed⟩

/-- **Lines as a text has them.** -/
inductive Broken : List Line → Prop
  | last {content : List Char} : Unbroken content → Broken [⟨content, .nothing⟩]
  | cons {l next : Line} {rest : List Line} : Unbroken l.content → l.ending ≠ .nothing → ¬ l.Fuses next →
      Broken (next :: rest) → Broken (l :: next :: rest)

theorem Broken.exists_cons {ls : List Line} (h : Broken ls) : ∃ l rest, ls = l :: rest := by
  cases h <;> exact ⟨_, _, rfl⟩

theorem unbroken_cons {c : Char} {cs : List Char} : Unbroken (c :: cs) ↔ (c ≠ '\r' ∧ c ≠ '\n') ∧ Unbroken cs := by
  simp only [Unbroken, List.mem_cons, not_or, ne_comm (a := c)]
  tauto

/-! ## The lines of a text -/

theorem Broken.consContent {ls : List Line} (h : Broken ls) {c : Char} (hc : c ≠ '\r' ∧ c ≠ '\n') :
    Broken (consContent c ls) := by
  cases h with
  | last hcontent => exact .last (unbroken_cons.2 ⟨hc, hcontent⟩)
  | cons hcontent hending hfuses hrest => exact .cons (unbroken_cons.2 ⟨hc, hcontent⟩) hending hfuses hrest

theorem Broken.behind {ls : List Line} (h : Broken ls) {e : Ending} (he : e ≠ .nothing)
    (hfeed : e = .carriage → (joinLines ls).head? ≠ some '\n') : Broken (⟨[], e⟩ :: ls) := by
  obtain ⟨l, rest, rfl⟩ := h.exists_cons
  refine .cons ⟨List.not_mem_nil, List.not_mem_nil⟩ he ?_ h
  rintro ⟨hcarriage, rfl⟩
  exact hfeed hcarriage rfl

/-- **The lines of a text are as lines should be.** -/
theorem broken_splitLines (cs : List Char) : Broken (splitLines cs) := by
  fun_induction splitLines cs with
  | case1 => exact .last ⟨List.not_mem_nil, List.not_mem_nil⟩
  | case2 cs ih => exact ih.behind (by simp) (by simp)
  | case3 cs hnext ih =>
    refine ih.behind (by simp) fun _ hhead => ?_
    rw [joinLines_splitLines] at hhead
    obtain ⟨rest, rfl⟩ := List.head?_eq_some_iff.1 hhead
    exact hnext rest rfl
  | case4 cs ih => exact ih.behind (by simp) (by simp)
  | case5 c cs _ hr hn ih => exact ih.consContent ⟨hr, hn⟩

/-! ## Lines found again -/

theorem splitLines_append_unbroken {front : List Char} (hfront : Unbroken front) {cs : List Char} {l : Line}
    {rest : List Line} (hcs : splitLines cs = l :: rest) :
    splitLines (front ++ cs) = ⟨front ++ l.content, l.ending⟩ :: rest := by
  induction front with
  | nil => exact hcs
  | cons c front ih =>
    obtain ⟨⟨hr, hn⟩, hfront⟩ := unbroken_cons.1 hfront
    rw [List.cons_append, splitLines_char hr hn, ih hfront]
    rfl

theorem splitLines_ending {e : Ending} (he : e ≠ .nothing) {cs : List Char}
    (hfeed : e = .carriage → cs.head? ≠ some '\n') : splitLines (e.text ++ cs) = ⟨[], e⟩ :: splitLines cs := by
  cases e with
  | nothing => exact absurd rfl he
  | feed | carriageFeed => simp [Ending.text, splitLines]
  | carriage =>
    rw [Ending.text, List.singleton_append, splitLines]
    rintro rest rfl
    exact hfeed rfl rfl

/-- **A bare `\n` is the only line that starts with `\n`.** -/
theorem Broken.eq_feed {l : Line} {rest : List Line} (h : Broken (l :: rest))
    (hhead : (joinLines (l :: rest)).head? = some '\n') : l = ⟨[], .feed⟩ := by
  obtain ⟨content, ending⟩ := l
  have hcontent : Unbroken content := by cases h <;> assumption
  cases content with
  | cons c content =>
    obtain rfl : c = '\n' := Option.some.inj hhead
    exact absurd List.mem_cons_self hcontent.2
  | nil =>
    cases ending with
    | feed => rfl
    | nothing =>
      cases h with
      | last => cases hhead
      | cons _ hending => exact absurd rfl hending
    | carriage | carriageFeed => cases hhead

/-- **Lines are found again in the text that they make.** -/
theorem splitLines_joinLines {ls : List Line} (h : Broken ls) : splitLines (joinLines ls) = ls := by
  induction h with
  | last hcontent =>
    have hlast := splitLines_append_unbroken hcontent (show splitLines [] = ⟨[], .nothing⟩ :: [] from rfl)
    simpa [joinLines, Line.text, Ending.text] using hlast
  | @cons l next rest hcontent hending hfuses hrest ih =>
    have hbreak : splitLines (l.ending.text ++ joinLines (next :: rest)) = ⟨[], l.ending⟩ :: next :: rest := by
      rw [splitLines_ending hending, ih]
      exact fun hcarriage hhead => hfuses ⟨hcarriage, hrest.eq_feed hhead⟩
    have hline := splitLines_append_unbroken hcontent hbreak
    rwa [List.append_nil, ← List.append_assoc] at hline

/-! ## Contents and endings as texts -/

/-- **A line's content and ending**, as two texts. -/
def Line.texts (l : Line) : List Char × List Char := (l.content, l.ending.text)

/-- **Pairs of contents and endings that make a text of lines.** -/
structure Splits (text : List Char) (pairs : List (List Char × List Char)) : Prop where
  whole : pairs.flatMap (fun p => p.1 ++ p.2) = text
  contents : ∀ p ∈ pairs, '\r' ∉ p.1 ∧ '\n' ∉ p.1
  breaks : ∀ p ∈ pairs.dropLast, p.2 = ['\r', '\n'] ∨ p.2 = ['\r'] ∨ p.2 = ['\n']
  last : ∃ p, pairs.getLast? = some p ∧ p.2 = []
  apart : ∀ front a b back, pairs = front ++ a :: b :: back → ¬ (a.2 = ['\r'] ∧ b.1 = [] ∧ b.2 = ['\n'])

theorem Ending.text_inj {e e' : Ending} : e.text = e'.text ↔ e = e' := by
  cases e <;> cases e' <;> simp [Ending.text]

theorem exists_ending {text : List Char} (h : text = ['\r', '\n'] ∨ text = ['\r'] ∨ text = ['\n']) :
    ∃ e : Ending, e ≠ .nothing ∧ e.text = text := by
  rcases h with rfl | rfl | rfl
  · exact ⟨.carriageFeed, by simp, rfl⟩
  · exact ⟨.carriage, by simp, rfl⟩
  · exact ⟨.feed, by simp, rfl⟩

/-- **Lines make their text.** -/
theorem Broken.splits {ls : List Line} (h : Broken ls) : Splits (joinLines ls) (ls.map Line.texts) := by
  induction h with
  | @last content hcontent =>
    refine ⟨rfl, by simpa [Line.texts, Unbroken] using hcontent, by simp, ⟨_, rfl, rfl⟩, fun front a b back hsplit => ?_⟩
    have hlength := congrArg List.length hsplit
    simp at hlength
    omega
  | @cons l next rest hcontent hending hfuses hrest ih =>
    refine ⟨?_, ?_, ?_, ?_, ?_⟩
    · rw [List.map_cons, List.flatMap_cons, ih.whole]
      rfl
    · exact List.forall_mem_cons.2 ⟨hcontent, ih.contents⟩
    · refine List.forall_mem_cons.2 ⟨?_, ih.breaks⟩
      cases hl : l.ending with
      | nothing => exact absurd hl hending
      | feed | carriage | carriageFeed => simp [Line.texts, hl, Ending.text]
    · obtain ⟨p, hp, hlast⟩ := ih.last
      exact ⟨p, hp, hlast⟩
    · intro front a b back hsplit
      cases front with
      | cons p front => exact ih.apart front a b back (List.cons.inj hsplit).2
      | nil =>
        obtain ⟨rfl, hback⟩ := List.cons.inj hsplit
        obtain ⟨rfl, -⟩ := List.cons.inj hback
        rintro ⟨hcarriage, hempty, hfeed⟩
        obtain ⟨content, ending⟩ := next
        obtain rfl : ending = .feed := Ending.text_inj.1 hfeed
        obtain rfl : content = [] := hempty
        exact hfuses ⟨Ending.text_inj.1 hcarriage, rfl⟩

/-- **What makes a text of lines are lines.** -/
theorem Splits.exists_lines : ∀ {pairs : List (List Char × List Char)} {text : List Char}, Splits text pairs →
    ∃ ls, Broken ls ∧ ls.map Line.texts = pairs
  | [], _, h => by
    obtain ⟨p, hp, -⟩ := h.last
    cases hp
  | [p], _, h => by
    obtain ⟨q, hq, hempty⟩ := h.last
    obtain rfl : p = q := Option.some.inj hq
    refine ⟨[⟨p.1, .nothing⟩], .last (h.contents p (List.mem_singleton_self p)), ?_⟩
    simp [Line.texts, Ending.text, ← hempty]
  | p :: q :: pairs, _, h => by
    have hrest : Splits ((q :: pairs).flatMap fun p => p.1 ++ p.2) (q :: pairs) := by
      refine ⟨rfl, fun r hr => h.contents r (List.mem_cons_of_mem p hr), fun r hr => ?_, h.last, ?_⟩
      · exact h.breaks r (List.mem_cons_of_mem p hr)
      · rintro front a b back hsplit
        exact h.apart (p :: front) a b back (by rw [hsplit, List.cons_append])
    obtain ⟨ls, hbroken, hls⟩ := hrest.exists_lines
    obtain ⟨next, rest, rfl⟩ := hbroken.exists_cons
    obtain ⟨e, he, htext⟩ := exists_ending (h.breaks p List.mem_cons_self)
    refine ⟨⟨p.1, e⟩ :: next :: rest, .cons (h.contents p List.mem_cons_self) he ?_ hbroken, ?_⟩
    · rintro ⟨rfl, rfl⟩
      obtain ⟨rfl, -⟩ := List.cons.inj hls
      exact h.apart [] p _ pairs rfl ⟨htext.symm, rfl, rfl⟩
    · rw [List.map_cons, hls, Line.texts, htext]

/-- **Splitting gives the only lines of a text.**  The pairs of contents and endings of its lines make the text again,
contents hold no line breaks, every ending but the last is one of the three and the last is empty, and no `\r` stands
before a bare `\n`; no other pairs are like that. -/
theorem splits_iff (text : List Char) (pairs : List (List Char × List Char)) :
    Splits text pairs ↔ pairs = (splitLines text).map Line.texts := by
  constructor
  · intro h
    obtain ⟨ls, hbroken, rfl⟩ := h.exists_lines
    have htext : joinLines ls = text := h.whole ▸ hbroken.splits.whole.symm
    rw [← htext, splitLines_joinLines hbroken]
  · rintro rfl
    have hsplits := (broken_splitLines text).splits
    rwa [joinLines_splitLines] at hsplits

example : (splitLines ['a', '\r', '\n', '\r', 'b', '\n', '\n', '\r']).map Line.texts =
    [(['a'], ['\r', '\n']), ([], ['\r']), (['b'], ['\n']), ([], ['\n']), ([], ['\r']), ([], [])] := by decide

end Text
end Localizer
