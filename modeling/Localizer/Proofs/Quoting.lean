import Localizer.Proofs.Escapes
/-!
# Quoting — a text between single quotes

Each character is written as one unit (`RawUnit.quoting`), a backslash and a quote with a backslash before them.  So the
written text falls into as many units as the text has characters, and each unit reads as its character
(`RawText.reading_quoting`).  No unit is a bare quote: a literal goes on behind each of them (`scanQuoted_quoting`) and
ends behind the whole text (`scanQuoted_escapeQuoted`), unless the text has a line break, which no literal can hold.
-/
namespace Localizer

open Source

namespace Text

/-! ## One unit for each character -/

theorem self_mem_namedEscapes {c : Char} (h : c = '\\' ∨ c = '\'') : (c, c) ∈ namedEscapes := by
  rcases h with rfl | rfl <;> simp [namedEscapes]

/-- **A character as it is written between single quotes.** -/
def RawUnit.quoting (c : Char) : RawUnit :=
  if h : c = '\\' ∨ c = '\'' then .named c c (self_mem_namedEscapes h) else .char c fun hc => h (.inl hc)

/-- **A text as it is written between single quotes.** -/
def RawText.quoting (cs : List Char) : RawText := ⟨cs.map RawUnit.quoting, false⟩

theorem RawUnit.quoting_marked {c : Char} (h : c = '\\' ∨ c = '\'') :
    quoting c = .named c c (self_mem_namedEscapes h) := dif_pos h

theorem RawUnit.quoting_plain {c : Char} (hslash : c ≠ '\\') (hquote : c ≠ '\'') : quoting c = .char c hslash :=
  dif_neg fun h => h.elim hslash hquote

theorem RawUnit.reading_quoting (c : Char) : (quoting c).reading = [c] := by
  unfold quoting
  split <;> rfl

theorem RawUnit.text_quoting_ne (c : Char) : (quoting c).text ≠ ['\''] := by
  unfold quoting
  split
  · exact fun h => by cases h
  · rename_i hc
    exact fun h => hc (.inr (List.cons.inj h).1)

theorem RawUnit.quoting_ne_other (c d : Char) (h : ∀ e, (d, e) ∉ namedEscapes) : quoting c ≠ .other d h := by
  unfold quoting
  split <;> exact fun heq => by cases heq

theorem RawText.reading_quoting (cs : List Char) : (quoting cs).reading = cs := by
  simp [reading, quoting, tail, List.flatMap_map, RawUnit.reading_quoting]

theorem RawText.plain_quoting (cs : List Char) : (quoting cs).Plain := by
  refine ⟨rfl, fun d h hmem => ?_⟩
  obtain ⟨c, -, hc⟩ := List.mem_map.1 hmem
  exact RawUnit.quoting_ne_other c d h hc

/-- **A text is written unit by unit.** -/
theorem text_quoting (cs : List Char) : (RawText.quoting cs).text = escapeQuoted cs := by
  rw [RawText.text, RawText.quoting, RawText.tail, if_neg Bool.false_ne_true, List.append_nil, List.flatMap_map,
    escapeQuoted]
  refine List.flatMap_congr fun c _ => ?_
  by_cases h : c = '\\' ∨ c = '\''
  · rw [RawUnit.quoting_marked h, RawUnit.text, if_pos (by simpa using h)]
  · obtain ⟨hslash, hquote⟩ := not_or.1 h
    rw [RawUnit.quoting_plain hslash hquote, RawUnit.text, if_neg (by simpa using h)]

theorem escapeQuoted_cons (c : Char) (cs : List Char) :
    escapeQuoted (c :: cs) = (RawUnit.quoting c).text ++ escapeQuoted cs := by
  rw [← text_quoting, ← text_quoting]
  simp [RawText.text, RawText.quoting, RawText.tail]

theorem unescape_escapeQuoted (cs : List Char) : unescape (escapeQuoted cs) = cs := by
  rw [← text_quoting, unescape_text, RawText.reading_quoting]

theorem ofRaw_escapeQuoted (cs : List Char) : Cooked.ofRaw (escapeQuoted cs) = .text (String.ofList cs) := by
  rw [← text_quoting, ofRaw_text (RawText.plain_quoting cs), RawText.reading_quoting]

/-! ## Two replacements -/

/-- **A text with every occurrence of a character replaced.** -/
def replaceChar (c : Char) (new cs : List Char) : List Char := cs.flatMap fun d => if d = c then new else [d]

/-- **The backslashes first, then the quotes.** -/
theorem escapeQuoted_eq_replaceChar (cs : List Char) :
    escapeQuoted cs = replaceChar '\'' ['\\', '\''] (replaceChar '\\' ['\\', '\\'] cs) := by
  rw [replaceChar, replaceChar, List.flatMap_assoc, escapeQuoted]
  refine List.flatMap_congr fun c _ => ?_
  -- the first replacement writes no quote, and the backslashes of the second are not looked at again
  by_cases hslash : c = '\\'
  · subst hslash
    rfl
  · by_cases hquote : c = '\''
    · subst hquote
      rfl
    · simp [hslash, hquote]

/-! ## The end of a literal -/

theorem scanQuoted_plain {quote c : Char} (hslash : c ≠ '\\') (hquote : c ≠ quote) (cs : List Char) :
    scanQuoted quote (c :: cs) =
      if c = '\n' ∨ c = '\r' then none else (scanQuoted quote cs).map fun p => (c :: p.1, p.2) := by
  rw [scanQuoted]
  all_goals simp_all

theorem scanQuoted_marked {quote c : Char} (h : c ≠ '\r') (cs : List Char) :
    scanQuoted quote ('\\' :: c :: cs) = (scanQuoted quote cs).map fun p => ('\\' :: c :: p.1, p.2) := by
  rw [scanQuoted]
  all_goals simp_all

/-- **A literal goes on behind each unit** that is not a line break. -/
theorem scanQuoted_quoting (c : Char) (cs : List Char) : scanQuoted '\'' ((RawUnit.quoting c).text ++ cs) =
    if c = '\n' ∨ c = '\r' then none
    else (scanQuoted '\'' cs).map fun p => ((RawUnit.quoting c).text ++ p.1, p.2) := by
  by_cases h : c = '\\' ∨ c = '\''
  · have hbreak : ¬(c = '\n' ∨ c = '\r') := by rcases h with rfl | rfl <;> simp
    rw [RawUnit.quoting_marked h, if_neg hbreak]
    exact scanQuoted_marked (fun hreturn => hbreak (.inr hreturn)) cs
  · obtain ⟨hslash, hquote⟩ := not_or.1 h
    rw [RawUnit.quoting_plain hslash hquote]
    exact scanQuoted_plain hslash hquote cs

/-- **A literal ends behind the text written into it.** -/
theorem scanQuoted_escapeQuoted (rest : List Char) : ∀ cs : List Char,
    scanQuoted '\'' (escapeQuoted cs ++ '\'' :: rest) =
      if '\n' ∈ cs ∨ '\r' ∈ cs then none else some (escapeQuoted cs, rest)
  | [] => rfl
  | c :: cs => by
    have hbreaks : ('\n' ∈ c :: cs ∨ '\r' ∈ c :: cs) ↔ (c = '\n' ∨ c = '\r') ∨ '\n' ∈ cs ∨ '\r' ∈ cs := by
      rw [List.mem_cons, List.mem_cons, or_or_or_comm, eq_comm, eq_comm (a := '\r')]
    rw [escapeQuoted_cons, List.append_assoc, scanQuoted_quoting, scanQuoted_escapeQuoted rest cs, if_congr hbreaks rfl rfl]
    by_cases hc : c = '\n' ∨ c = '\r'
    · rw [if_pos hc, if_pos (.inl hc)]
    · by_cases hcs : '\n' ∈ cs ∨ '\r' ∈ cs
      · rw [if_neg hc, if_pos hcs, if_pos (.inr hcs), Option.map_none]
      · rw [if_neg hc, if_neg hcs, if_neg (not_or.2 ⟨hc, hcs⟩), Option.map_some]

theorem scan_escapeQuoted (cs rest : List Char) :
    Lexeme.scan ('\'' :: (escapeQuoted cs ++ '\'' :: rest)) =
      if '\n' ∈ cs ∨ '\r' ∈ cs then .invalid
      else ⟨.quoted (.text (String.ofList cs)), byteLength (escapeQuoted cs) + 2, rest⟩ := by
  rw [Lexeme.scan, if_neg (by decide), if_neg (by simp), if_pos (by simp), scanQuoted_escapeQuoted]
  by_cases h : '\n' ∈ cs ∨ '\r' ∈ cs
  · rw [if_pos h, if_pos h]
  · rw [if_neg h, if_neg h]
    dsimp only
    rw [ofRaw_escapeQuoted]

/-- **A text between single quotes does not end early.**  What is written for a text, by replacing its backslashes and
then its quotes, falls into units in exactly one way: no backslash is left over at the end, and no unit is a bare quote.
It reads back as the text.  Between quotes it is one token with the text as its value, whatever follows, unless the text
has a line break: then there is no token at all. -/
theorem escapeQuoted_enclosed (cs rest : List Char) :
    escapeQuoted cs = replaceChar '\'' ['\\', '\''] (replaceChar '\\' ['\\', '\\'] cs) ∧
    (∃ r : RawText, (∀ s : RawText, s.text = escapeQuoted cs ↔ s = r) ∧ r.lone = false ∧
      ['\''] ∉ r.units.map RawUnit.text) ∧
    unescape (escapeQuoted cs) = cs ∧
    Lexeme.scan ('\'' :: (escapeQuoted cs ++ '\'' :: rest)) =
      if '\n' ∈ cs ∨ '\r' ∈ cs then .invalid
      else ⟨.quoted (.text (String.ofList cs)), byteLength (escapeQuoted cs) + 2, rest⟩ := by
  refine ⟨escapeQuoted_eq_replaceChar cs, ⟨.quoting cs, fun s => ?_, rfl, fun hmem => ?_⟩, unescape_escapeQuoted cs,
    scan_escapeQuoted cs rest⟩
  · rw [← text_quoting]
    exact ⟨RawText.text_inj, fun h => by rw [h]⟩
  · rw [RawText.quoting, List.map_map] at hmem
    obtain ⟨c, -, hc⟩ := List.mem_map.1 hmem
    exact RawUnit.text_quoting_ne c hc

/-- A backslash before a quote, and one at the end. -/
example : escapeQuoted ['\\', '\'', '\\'] = ['\\', '\\', '\\', '\'', '\\', '\\'] := by decide

end Text
end Localizer
