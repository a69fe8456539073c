import Localizer.Proofs.ByteOrderMark
/-!
# Escapes — the text between the quotes of a message

A raw text falls into units in exactly one way (`Text.exists_unique_text`): single characters, backslashes with the
character after them, and perhaps a backslash that is left over at the end.  A message is read unit by unit
(`Text.unescape_text`).  Where every backslash starts one of the eight named escapes, that is what the literal denotes
(`Text.ofRaw_text`): the bundle gets the values of the literals (`Calls.analyze_messages`).
-/
namespace Localizer

open Source

namespace Text

/-! ## Units -/

/-- **The escapes that stand for a character of their own.** -/
def namedEscapes : List (Char × Char) :=
  [('n', '\n'), ('r', '\r'), ('t', '\t'), ('b', Char.ofNat 8), ('f', Char.ofNat 12), ('\\', '\\'), ('\'', '\''),
    ('"', '"')]

/-- **A unit of a raw text**: a character, a named escape, or a backslash with any other character after it. -/
inductive RawUnit where
  | char (c : Char) (h : c ≠ '\\')
  | named (c d : Char) (h : (c, d) ∈ namedEscapes)
  | other (c : Char) (h : ∀ d, (c, d) ∉ namedEscapes)

namespace RawUnit

def text : RawUnit → List Char
  | char c _ => [c]
  | named c _ _ => ['\\', c]
  | other c _ => ['\\', c]

/-- **What a unit reads as**: a named escape as its character, anything else as it is. -/
def reading : RawUnit → List Char
  | char c _ => [c]
  | named _ d _ => [d]
  | other c _ => ['\\', c]

end RawUnit

/-- **A raw text in units**, and whether a backslash is left over at its end. -/
structure RawText where
  units : List RawUnit
  lone : Bool

namespace RawText

def tail (r : RawText) : List Char := if r.lone then ['\\'] else []

def text (r : RawText) : List Char := r.units.flatMap RawUnit.text ++ r.tail

def reading (r : RawText) : List Char := r.units.flatMap RawUnit.reading ++ r.tail

/-- **Every backslash starts a named escape.** -/
def Plain (r : RawText) : Prop := r.lone = false ∧ ∀ c h, .other c h ∉ r.units

end RawText

theorem escaped?_eq_some {c d : Char} : escaped? c = some d ↔ (c, d) ∈ namedEscapes := by
  constructor
  · fun_cases escaped? c with
    | case1 h | case2 _ h | case3 _ _ h | case4 _ _ _ h | case5 _ _ _ _ h =>
      rw [eq_of_beq h]
      rintro ⟨⟩
      decide
    | case6 _ _ _ _ _ h =>
      rintro ⟨⟩
      simp only [Bool.or_eq_true, beq_iff_eq, or_assoc] at h
      rcases h with rfl | rfl | rfl <;> decide
    | case7 => exact fun h => by cases h
  · intro h
    simp only [namedEscapes, List.mem_cons, Prod.mk.injEq, List.not_mem_nil, or_false] at h
    rcases h with ⟨rfl, rfl⟩ | ⟨rfl, rfl⟩ | ⟨rfl, rfl⟩ | ⟨rfl, rfl⟩ | ⟨rfl, rfl⟩ | ⟨rfl, rfl⟩ | ⟨rfl, rfl⟩ | ⟨rfl, rfl⟩ <;>
      rfl

theorem unescape_unit (u : RawUnit) (cs : List Char) : unescape (u.text ++ cs) = u.reading ++ unescape cs := by
  cases u with
  | char c h =>
    rw [RawUnit.text, RawUnit.reading, List.singleton_append, List.singleton_append, unescape]
    exact fun _ _ hc _ => h hc
  | named c d h =>
    rw [RawUnit.text, RawUnit.reading, List.cons_append, List.singleton_append, List.singleton_append, unescape]
    rw [escaped?_eq_some.2 h]
  | other c h =>
    have hnone : escaped? c = none := Option.eq_none_iff_forall_ne_some.2 fun d hd => h d (escaped?_eq_some.1 hd)
    rw [RawUnit.text, RawUnit.reading, List.cons_append, List.singleton_append, unescape, hnone]
    rfl

theorem unescape_units (cs : List Char) : ∀ us : List RawUnit,
    unescape (us.flatMap RawUnit.text ++ cs) = us.flatMap RawUnit.reading ++ unescape cs
  | [] => rfl
  | u :: us => by
    rw [List.flatMap_cons, List.append_assoc, unescape_unit, unescape_units cs us, List.flatMap_cons,
      List.append_assoc]

/-- **A raw text is read unit by unit.** -/
theorem unescape_text (r : RawText) : unescape r.text = r.reading := by
  rw [RawText.text, unescape_units, RawText.reading, RawText.tail]
  cases r.lone <;> rfl

/-! ## Every text falls into units, in one way -/

theorem exists_unit (c : Char) : ∃ u : RawUnit, u.text = ['\\', c] := by
  cases hc : escaped? c with
  | some d => exact ⟨.named c d (escaped?_eq_some.1 hc), rfl⟩
  | none =>
    refine ⟨.other c fun d hd => ?_, rfl⟩
    rw [escaped?_eq_some.2 hd] at hc
    cases hc

theorem exists_text : ∀ raw : List Char, ∃ r : RawText, r.text = raw
  | [] => ⟨⟨[], false⟩, rfl⟩
  | [c] => by
    by_cases hc : c = '\\'
    · exact ⟨⟨[], true⟩, by rw [hc]; rfl⟩
    · exact ⟨⟨[.char c hc], false⟩, rfl⟩
  | c :: d :: cs => by
    by_cases hc : c = '\\'
    · obtain ⟨u, hu⟩ := exists_unit d
      obtain ⟨r, rfl⟩ := exists_text cs
      refine ⟨⟨u :: r.units, r.lone⟩, ?_⟩
      rw [RawText.text, List.flatMap_cons, hu, hc]
      rfl
    · obtain ⟨r, hr⟩ := exists_text (d :: cs)
      refine ⟨⟨.char c hc :: r.units, r.lone⟩, ?_⟩
      rw [← hr]
      rfl

theorem RawUnit.eq_of_append {u v : RawUnit} {as bs : List Char} (h : u.text ++ as = v.text ++ bs) :
    u = v ∧ as = bs := by
  cases u with
  | char c hc =>
    cases v with
    | char d hd =>
      obtain ⟨rfl, rfl⟩ := List.cons.inj h
      exact ⟨rfl, rfl⟩
    | named | other => exact absurd (List.cons.inj h).1 hc
  | named c d hc =>
    cases v with
    | char e he => exact absurd (List.cons.inj h).1.symm he
    | named e f he =>
      obtain ⟨rfl, rfl⟩ := List.cons.inj (List.cons.inj h).2
      obtain rfl := Option.some.inj ((escaped?_eq_some.2 hc).symm.trans (escaped?_eq_some.2 he))
      exact ⟨rfl, rfl⟩
    | other e he =>
      obtain ⟨rfl, -⟩ := List.cons.inj (List.cons.inj h).2
      exact absurd hc (he d)
  | other c hc =>
    cases v with
    | char e he => exact absurd (List.cons.inj h).1.symm he
    | named e f he =>
      obtain ⟨rfl, -⟩ := List.cons.inj (List.cons.inj h).2
      exact absurd he (hc f)
    | other e he =>
      obtain ⟨rfl, rfl⟩ := List.cons.inj (List.cons.inj h).2
      exact ⟨rfl, rfl⟩

theorem RawUnit.append_ne_tail (u : RawUnit) (cs : List Char) (r : RawText) : u.text ++ cs ≠ r.tail := by
  unfold RawText.tail
  intro h
  cases u with
  | char c hc =>
    split at h
    · exact hc (List.cons.inj h).1
    · cases h
  | named | other => split at h <;> cases h

theorem RawText.text_inj : ∀ {r s : RawText}, r.text = s.text → r = s
  | ⟨[], true⟩, ⟨[], true⟩, _ => rfl
  | ⟨[], false⟩, ⟨[], false⟩, _ => rfl
  | ⟨[], true⟩, ⟨[], false⟩, h => by cases h
  | ⟨[], false⟩, ⟨[], true⟩, h => by cases h
  | ⟨[], a⟩, ⟨v :: vs, b⟩, h => by
    rw [text, text, List.flatMap_cons, List.append_assoc] at h
    exact absurd h.symm (v.append_ne_tail _ ⟨[], a⟩)
  | ⟨u :: us, a⟩, ⟨[], b⟩, h => by
    rw [text, text, List.flatMap_cons, List.append_assoc] at h
    exact absurd h (u.append_ne_tail _ ⟨[], b⟩)
  | ⟨u :: us, a⟩, ⟨v :: vs, b⟩, h => by
    rw [text, text, List.flatMap_cons, List.flatMap_cons, List.append_assoc, List.append_assoc] at h
    obtain ⟨rfl, hrest⟩ := RawUnit.eq_of_append h
    cases text_inj (r := ⟨us, a⟩) (s := ⟨vs, b⟩) hrest
    rfl

theorem exists_unique_text (raw : List Char) : ∃! r : RawText, r.text = raw := by
  obtain ⟨r, rfl⟩ := exists_text raw
  exact ⟨r, rfl, fun s hs => RawText.text_inj hs⟩

/-! ## What a literal denotes -/

theorem cook_char {octal : Bool} {c : Char} (h : c ≠ '\\') (cs : List Char) :
    cook octal .plain (c :: cs) = (cook octal .plain cs).map (c.toNat :: ·) := by
  rw [cook]
  all_goals simp_all

theorem cook_simple {octal : Bool} {c : Char} (hx : c ≠ 'x') (hu : c ≠ 'u') (hreturn : c ≠ '\r')
    (hbreak : isBreak c = false) (hdigit : c.isDigit = false) (cs : List Char) :
    cook octal .plain ('\\' :: c :: cs) = (cook octal .plain cs).map (simpleEscape c :: ·) := by
  rw [cook.eq_def]
  split
  case h_10 hescape _ heq =>
    obtain ⟨rfl, rfl⟩ := List.cons.inj heq
    exact (hescape c cs rfl rfl).elim
  all_goals simp_all

theorem cook_escape {c d : Char} (h : (c, d) ∈ namedEscapes) (cs : List Char) :
    cook true .plain ('\\' :: c :: cs) = (cook true .plain cs).map (d.toNat :: ·) := by
  simp only [namedEscapes, List.mem_cons, Prod.mk.injEq, List.not_mem_nil, or_false] at h
  rcases h with ⟨rfl, rfl⟩ | ⟨rfl, rfl⟩ | ⟨rfl, rfl⟩ | ⟨rfl, rfl⟩ | ⟨rfl, rfl⟩ | ⟨rfl, rfl⟩ | ⟨rfl, rfl⟩ | ⟨rfl, rfl⟩ <;>
    exact cook_simple (by decide) (by decide) (by decide) (by decide) (by decide) cs

theorem cook_units : ∀ {us : List RawUnit}, (∀ c h, .other c h ∉ us) →
    cook true .plain (us.flatMap RawUnit.text) = some ((us.flatMap RawUnit.reading).map Char.toNat)
  | [], _ => rfl
  | u :: us, h => by
    have hrest := cook_units fun c hc hmem => h c hc (List.mem_cons_of_mem _ hmem)
    rw [List.flatMap_cons, List.flatMap_cons, List.map_append]
    cases u with
    | char c hc => rw [RawUnit.text, List.singleton_append, cook_char hc, hrest]; rfl
    | named c d hd =>
      rw [RawUnit.text, List.cons_append, List.singleton_append, cook_escape hd, hrest]
      rfl
    | other c hc => exact absurd List.mem_cons_self (h c hc)

theorem joinSurrogates_toNat : ∀ cs : List Char, joinSurrogates (cs.map Char.toNat) = some cs
  | [] => rfl
  | [c] => by simp [joinSurrogates, not_surrogate, Char.ofNat_toNat]
  | c :: d :: cs => by
    have hrest := joinSurrogates_toNat (d :: cs)
    rw [List.map_cons] at hrest
    simp [joinSurrogates, not_surrogate, Char.ofNat_toNat, hrest]

/-- **A literal in which every backslash starts a named escape** denotes what it reads as. -/
theorem ofRaw_text {r : RawText} (h : r.Plain) : Cooked.ofRaw r.text = .text (String.ofList r.reading) := by
  have htail : r.tail = [] := by rw [RawText.tail, h.1]; rfl
  rw [Cooked.ofRaw, RawText.text, RawText.reading, htail, List.append_nil, List.append_nil, cook_units h.2]
  dsimp only
  rw [joinSurrogates_toNat]

end Text

/-! ## Messages -/

theorem Source.Quoted.slice {script : Script} {body : List Char} {span : Span} {cooked : Cooked}
    (h : Quoted body span cooked) (hbody : script.Body body) : ∃ quote raw, (quote = '"' ∨ quote = '\'') ∧
      script.slice span = quote :: (raw ++ [quote]) ∧ cooked = Cooked.ofRaw raw := by
  obtain ⟨front, quote, raw, back, hquote, rfl, rfl, hcooked⟩ := h
  have hone : quote.utf8Size = 1 := by rcases hquote with rfl | rfl <;> decide
  refine ⟨quote, raw, hquote, hbody.slice front (quote :: (raw ++ [quote])) back (by simp) rfl ?_, hcooked⟩
  simp only [Text.byteLength, Text.byteLength_append, hone]
  omega

namespace Calls

open Text (RawText)

theorem betweenQuotes_quoted (quote : Char) (raw : List Char) : betweenQuotes (quote :: (raw ++ [quote])) = raw := by
  rw [betweenQuotes, List.drop_one, List.tail_cons, List.dropLast_concat]

/-- **A literal of the script and its units.** -/
theorem exists_units {script : Script} {body : List Char} (hbody : script.Body body) {span : Span} {value : Option String}
    (hset : (Expr.string span value).Set body) : ∃ quote, ∃ r : RawText, (quote = '"' ∨ quote = '\'') ∧
      script.slice span = quote :: (r.text ++ [quote]) ∧ (r.Plain → value = some (String.ofList r.reading)) := by
  obtain ⟨cooked, hquoted, hvalue⟩ := hset.enclosed
  obtain ⟨quote, raw, hquote, hslice, rfl⟩ := hquoted.slice hbody
  obtain ⟨r, rfl⟩ := Text.exists_text raw
  exact ⟨quote, r, hquote, hslice, fun hplain => (hvalue _).2 (Text.ofRaw_text hplain)⟩

/-- **Messages as their literals spell them.**  Every message of the bundle is the reading of the text between the
quotes of an accepted call's second argument.  Every text is read in units, into which it falls in exactly one way: the
eight named escapes are replaced, and everything else is kept.  Where all escapes of a literal are named, the message is
the value of the literal. -/
theorem analyze_messages {file : String} {text : List Char} {script : Script} (h : Script.parse file text = .ok script)
    (relative : Option (List Char)) (moduleName : String) :
    let names := namesOf script.program moduleName
    let entries := (names.sites script script.program.visits).filterMap Site.accepted?
    (analyze script relative moduleName).bundle.messages = entries.map (·.message) ∧
    (∀ entry ∈ entries, ∃ call key value rest quote, ∃ r : RawText, names.IsSite script.program call ∧
      call.args = key :: .string entry.messageSpan value :: rest ∧ (quote = '"' ∨ quote = '\'') ∧
      script.slice entry.messageSpan = quote :: (r.text ++ [quote]) ∧ entry.message = String.ofList r.reading ∧
      (r.Plain → value = some entry.message)) ∧
    (∀ raw, ∃! r : RawText, r.text = raw) ∧
    ∀ r : RawText, Text.unescape r.text = r.reading ∧
      (r.Plain → Cooked.ofRaw r.text = .text (String.ofList (Text.unescape r.text))) := by
  intro names entries
  obtain ⟨-, body, hbody⟩ := Script.body_of_parse h
  obtain ⟨-, -, hi, hlaid⟩ := Script.laid_of_parse h
  have hp : script.program.Apart := .of_laid hlaid
  refine ⟨by rw [analyze_bundle], fun entry hentry => ?_, Text.exists_unique_text, fun r => ⟨Text.unescape_text r, ?_⟩⟩
  · obtain ⟨site, hsite, haccepted⟩ := List.mem_filterMap.1 hentry
    obtain ⟨place, span, callee, args, hpart, hlocalizes, rfl⟩ := (mem_sites hp).1 hsite
    have hgives : Call.Gives script ⟨place, span, callee, args⟩ entry := Call.accepted?_site.1 haccepted
    obtain ⟨key, value, rest, hargs, -, -, hmessage⟩ := hgives
    obtain ⟨hi, hvisited⟩ := hbody.laid
    obtain ⟨-, -, -, hrow⟩ := hvisited.formed (.call span callee args)
      (List.mem_filterMap.2 ⟨_, at?_of_mem_visits.2 ⟨place, hpart⟩, rfl⟩)
    have hset := hrow.set (.string entry.messageSpan value) (by rw [show args = _ from hargs]; simp)
    obtain ⟨quote, r, hquote, hslice, hvalue⟩ := exists_units hbody hset
    rw [hslice, betweenQuotes_quoted, Text.unescape_text] at hmessage
    refine ⟨⟨place, span, callee, args⟩, key, value, rest, quote, r, ⟨hpart, hlocalizes⟩, hargs, hquote, hslice,
      hmessage, ?_⟩
    rw [hmessage]
    exact hvalue
  · intro hplain
    rw [Text.unescape_text, Text.ofRaw_text hplain]

/-- A message with a line break, a quote, and a backslash before the letter of an escape. -/
theorem analyze_messages_paired :
    let text := "var n=require('m');n.loadMessageBundle()('k','\\n\\'\\\\n')".toList
    ∃ script call key rest, Script.parse "a.js" text = .ok script ∧
      (analyze script none "m").bundle.messages = ["\n'\\n"] ∧
      (namesOf script.program "m").IsSite script.program call ∧
      call.args = key :: .string ⟨45, 54⟩ (some "\n'\\n") :: rest := by
  intro text
  have hcheck : ∃ script, Script.parse "a.js" text = .ok script ∧
      script.slice ⟨45, 54⟩ = ['\'', '\\', 'n', '\\', '\'', '\\', '\\', 'n', '\''] ∧
      ((namesOf script.program "m").found script script.program.visits).Pairwise
        (fun a b => Nat.ble a.start b.start = true) ∧
      ((namesOf script.program "m").found script script.program.visits).filterMap Site.accepted? =
        [⟨.bare "k", ⟨41, 44⟩, "\n'\\n", ⟨45, 54⟩⟩] := by
    refine exists_of_check ?_
    decide +kernel
  obtain ⟨script, hparse, hraw, hsorted, hfound⟩ := hcheck
  obtain ⟨hmessages, hentries, hunique, -⟩ := analyze_messages hparse none "m"
  rw [show (namesOf script.program "m").sites script script.program.visits = _ from
    List.mergeSort_of_pairwise hsorted, hfound] at hmessages hentries
  obtain ⟨call, key, value, rest, quote, r, hsite, hargs, -, hslice, -, hvalue⟩ :=
    hentries _ (List.mem_singleton_self _)
  let units : List Text.RawUnit :=
    [.named 'n' '\n' (by decide), .named '\'' '\'' (by decide), .named '\\' '\\' (by decide), .char 'n' (by decide)]
  have htext : r.text = ['\\', 'n', '\\', '\'', '\\', '\\', 'n'] := by
    have hquoted : ['\\', 'n', '\\', '\'', '\\', '\\', 'n'] ++ ['\''] = r.text ++ [quote] :=
      (List.cons.inj (hraw.symm.trans hslice)).2
    exact (List.append_inj_left' hquoted rfl).symm
  have hr : r = ⟨units, false⟩ := (hunique _).unique htext rfl
  have hplain : r.Plain := by
    rw [hr]
    exact ⟨rfl, by simp [units]⟩
  rw [hvalue hplain] at hargs
  exact ⟨script, call, key, rest, hparse, hmessages, hsite, hargs⟩

end Calls
end Localizer
