import Localizer.Json.Decode
import Localizer.Json.Printer
/-!
# JsonText — the reader reads what the printer writes

`Spelled depth v cs` says that the reader takes the text `cs`, wherever it stands, for the value `v`.  Words, digits and
quoted texts are spelled by themselves; an array or an object is spelled by what its parts spell, with a comma between
them and any blanks around them.
-/
namespace Localizer
namespace Json

/-! ## Strings -/

theorem stringChars_control {c : Char} (hc : c.toNat < 32) (rest : List Char) :
    stringChars ('\\' :: 'u' :: '0' :: '0' :: Text.hexByte c.toNat ++ rest) =
      (stringChars rest).map fun p => (c :: p.1, p.2) := by
  have hhigh := Text.hexValue?_hexDigit (c.toNat / 16 % 16) (by omega)
  have hlow := Text.hexValue?_hexDigit (c.toNat % 16) (by omega)
  have hzero : Text.hexValue? '0' = some 0 := by decide
  have hnumber : Text.hexNumber ('0' :: '0' :: Text.hexByte c.toNat) = some c.toNat := by
    simp only [Text.hexNumber, Text.hexByte, List.foldl_cons, List.foldl_nil, hzero, hhigh, hlow]
    congr 1
    omega
  obtain ⟨hhighs, hlows⟩ := Text.not_surrogate c
  rw [Text.hexByte] at hnumber ⊢
  simp only [List.cons_append, List.nil_append]
  rw [stringChars]
  simp only [hnumber, hhighs, hlows, Bool.false_eq_true, if_false, Char.ofNat_toNat]

theorem stringChars_escaped {e c : Char} (he : escape? e = some c) (rest : List Char) :
    stringChars ('\\' :: e :: rest) = (stringChars rest).map fun p => (c :: p.1, p.2) := by
  have hu : e ≠ 'u' := by
    rintro rfl
    cases he
  rw [stringChars.eq_def]
  split <;> grind

theorem stringChars_plain {c : Char} (hquote : c ≠ '"') (hback : c ≠ '\\') (hc : 32 ≤ c.toNat) (rest : List Char) :
    stringChars (c :: rest) = (stringChars rest).map fun p => (c :: p.1, p.2) := by
  rw [stringChars.eq_def]
  split <;> grind

theorem stringChars_quoteChar (c : Char) (rest : List Char) :
    stringChars (quoteChar c ++ rest) = (stringChars rest).map fun p => (c :: p.1, p.2) := by
  have hchar {n : Nat} (h : (c.toNat == n) = true) : c = Char.ofNat n := by
    rw [← eq_of_beq h, Char.ofNat_toNat]
  unfold quoteChar
  split
  case isTrue h => exact stringChars_escaped (by rw [eq_of_beq h]; decide) rest
  split
  case isTrue h => exact stringChars_escaped (by rw [eq_of_beq h]; decide) rest
  split
  case isTrue h => exact stringChars_escaped (by rw [hchar h]; decide) rest
  split
  case isTrue h => exact stringChars_escaped (by rw [hchar h]; decide) rest
  split
  case isTrue h => exact stringChars_escaped (by rw [eq_of_beq h]; decide) rest
  split
  case isTrue h => exact stringChars_escaped (by rw [eq_of_beq h]; decide) rest
  split
  case isTrue h => exact stringChars_escaped (by rw [eq_of_beq h]; decide) rest
  split
  case isTrue h => exact stringChars_control h rest
  case isFalse hquote hback _ _ _ _ _ hc =>
    exact stringChars_plain (by simpa using hquote) (by simpa using hback) (Nat.le_of_not_lt hc) rest

theorem stringChars_quote (cs rest : List Char) :
    stringChars (cs.flatMap quoteChar ++ '"' :: rest) = some (cs, rest) := by
  induction cs with
  | nil => rw [List.flatMap_nil, List.nil_append, stringChars]
  | cons c cs ih =>
    rw [List.flatMap_cons, List.append_assoc, stringChars_quoteChar, ih]
    rfl

theorem quote_eq (s : String) (rest : List Char) :
    quote s ++ rest = '"' :: (s.toList.flatMap quoteChar ++ '"' :: rest) := by
  simp [quote]

/-! ## Blanks and what follows a value -/

/-- **Blanks.** -/
def Gaps (gap : List Char) : Prop := ∀ c ∈ gap, isGap c = true

theorem gaps_nil : Gaps [] := by
  intro c hc
  cases hc

theorem skipGaps_gaps {gap : List Char} (hgap : Gaps gap) {c : Char} (hc : isGap c = false) (cs : List Char) :
    skipGaps (gap ++ c :: cs) = c :: cs := by
  rw [skipGaps, List.dropWhile_append_of_pos hgap, List.dropWhile_cons_of_neg (by rw [hc]; decide)]

/-- **A text that no number goes on into.** -/
def Stops (rest : List Char) : Prop :=
  ∀ c ∈ rest.head?, Text.isDecimal c = false ∧ c ≠ '.' ∧ c ≠ 'e' ∧ c ≠ 'E'

theorem stops_nil : Stops [] := by
  intro c hc
  cases hc

theorem stops_cons {c : Char} (h : Text.isDecimal c = false ∧ c ≠ '.' ∧ c ≠ 'e' ∧ c ≠ 'E') (cs : List Char) :
    Stops (c :: cs) := by
  intro d hd
  cases hd
  exact h

theorem stops_comma (cs : List Char) : Stops (',' :: cs) := stops_cons (by decide) cs

theorem stops_gaps {gap cs : List Char} (hgap : Gaps gap) (hcs : Stops cs) : Stops (gap ++ cs) := by
  cases gap with
  | nil => exact hcs
  | cons c gap =>
    have hc : isGap c = true := hgap c (List.mem_cons_self ..)
    simp only [isGap, Bool.or_eq_true, beq_iff_eq, or_assoc] at hc
    refine stops_cons ?_ (gap ++ cs)
    rcases hc with rfl | rfl | rfl | rfl <;> decide

/-! ## Numbers of one digit -/

theorem spanDigits_single {c : Char} (hc : Text.isDecimal c = true) {rest : List Char} (hrest : Stops rest) :
    spanDigits (c :: rest) = ([c], rest) := by
  cases rest with
  | nil => simp [spanDigits, hc]
  | cons d ds =>
    have hd : Text.isDecimal d = false := (hrest d rfl).1
    simp [spanDigits, hc, hd]

theorem readNumber_digit {n : Nat} (hn : n < 10) {rest : List Char} (hrest : Stops rest) :
    readNumber (Text.decimal n ++ rest) = some (.integer n, rest) := by
  have hdigits : Text.decimal n = [Nat.digitChar n] := Nat.toDigits_of_lt_base hn
  have hc : ∀ n < 10, Text.isDecimal (Nat.digitChar n) = true ∧ Nat.digitChar n ≠ '-' ∧
      Text.decimalValue [Nat.digitChar n] = n := by decide
  obtain ⟨hdecimal, hminus, hvalue⟩ := hc n hn
  have hwhole : wholeDigits (Nat.digitChar n :: rest) = some ([Nat.digitChar n], rest) := by
    rw [wholeDigits, spanDigits_single hdecimal hrest]
    split <;> simp_all
  have hfraction : fractionDigits rest = some (none, rest) := by
    unfold fractionDigits
    split
    · exact absurd rfl (hrest '.' rfl).2.1
    · rfl
  have hexponent : exponentValue rest = some (none, rest) := by
    unfold exponentValue
    split
    case h_1 c cs =>
      obtain ⟨-, -, he, hE⟩ := hrest c rfl
      simp [he, hE]
    case h_2 => rfl
  have hnumber : numberOf false [Nat.digitChar n] none none = some (.integer n) := by
    have hfits : n < Nat.pow 2 64 := Nat.lt_trans hn (by decide)
    simp [numberOf, integer?, hvalue, hfits]
  rw [hdigits, List.singleton_append, readNumber]
  · simp [hwhole, hfraction, hexponent, hnumber]
  · intro ds heq
    exact hminus (List.cons.inj heq).1

/-! ## Values -/

/-- **A text that the reader takes for a value**, with room for `depth` more levels, whatever blanks stand before it and
whatever stands behind it. -/
structure Spelled (depth : Nat) (v : Json) (cs : List Char) : Prop where
  head : ∃ c t, cs = c :: t ∧ isGap c = false ∧ c ≠ ']'
  read : ∀ {fuel : Nat} {gap rest : List Char}, 2 * cs.length ≤ fuel + 1 → Gaps gap → Stops rest →
    readValue (fuel + 1) depth (gap ++ (cs ++ rest)) = some (v, rest)

theorem spelled_null {depth : Nat} : Spelled depth .null "null".toList where
  head := ⟨'n', "ull".toList, by decide, by decide, by decide⟩
  read {_ _ rest} _ hgap _ := by
    have htext : "null".toList ++ rest = 'n' :: ("ull".toList ++ rest) := rfl
    rw [htext, readValue, skipGaps_gaps hgap (by decide)]
    simp [afterWord]

theorem spelled_digit {depth n : Nat} (hn : n < 10) : Spelled depth (ofNat n) (Text.decimal n) := by
  have hdigits : Text.decimal n = [Nat.digitChar n] := Nat.toDigits_of_lt_base hn
  have hc : ∀ n < 10, isGap (Nat.digitChar n) = false ∧ Nat.digitChar n ∉ ['"', '[', '{', 'n', 't', 'f', ']'] := by
    decide
  obtain ⟨hgapped, hother⟩ := hc n hn
  constructor
  · refine ⟨Nat.digitChar n, [], hdigits, hgapped, ?_⟩
    rintro h
    simp [h] at hother
  · intro fuel gap rest hfuel hgap hrest
    have hnumber := readNumber_digit hn hrest
    rw [hdigits, List.singleton_append] at hnumber ⊢
    rw [readValue, skipGaps_gaps hgap hgapped]
    split <;> simp_all [ofNat]

theorem spelled_string {depth : Nat} (s : String) : Spelled depth (.string s) (quote s) where
  head := ⟨'"', s.toList.flatMap quoteChar ++ ['"'], rfl, by decide, by decide⟩
  read _ hgap _ := by
    rw [quote_eq, readValue, skipGaps_gaps hgap (by decide)]
    simp only [stringChars_quote, Option.map_some, String.ofList_toList]

theorem joined_cons_cons (gap p q : List Char) (ps : List (List Char)) :
    Text.joined (',' :: gap) (p :: q :: ps) = p ++ ',' :: (gap ++ Text.joined (',' :: gap) (q :: ps)) := by
  simp [Text.joined]

theorem joined_head (gap : List Char) (c : Char) (p : List Char) (ps : List (List Char)) :
    ∃ u, Text.joined (',' :: gap) ((c :: p) :: ps) = c :: u := by
  cases ps with
  | nil => exact ⟨p, rfl⟩
  | cons q ps => exact ⟨p ++ ',' :: (gap ++ Text.joined (',' :: gap) (q :: ps)), joined_cons_cons gap (c :: p) q ps⟩

theorem skipGaps_plain {c : Char} (hc : isGap c = false) (cs : List Char) : skipGaps (c :: cs) = c :: cs :=
  skipGaps_gaps gaps_nil hc cs

theorem readElements_joined {depth : Nat} {text : Json → List Char} {gap close : List Char} (hgap : Gaps gap)
    (hclose : Gaps close) (rest : List Char) {vs : List Json} (hne : vs ≠ []) (hvs : ∀ v ∈ vs, Spelled depth v (text v))
    {fuel : Nat} {lead : List Char} (hlead : Gaps lead)
    (hfuel : 2 * (Text.joined (',' :: gap) (vs.map text)).length ≤ fuel) :
    readElements (fuel + 1) depth (lead ++ (Text.joined (',' :: gap) (vs.map text) ++ (close ++ ']' :: rest))) =
      some (vs, rest) := by
  have hstop : Stops (close ++ ']' :: rest) := stops_gaps hclose (stops_cons (by decide) rest)
  induction vs generalizing fuel lead with
  | nil => exact absurd rfl hne
  | cons v vs ih =>
    have hv : Spelled depth v (text v) := hvs v (List.mem_cons_self ..)
    have hpos : 1 ≤ (text v).length := by
      obtain ⟨c, t, htext, -⟩ := hv.head
      rw [htext, List.length_cons]
      omega
    cases vs with
    | nil =>
      simp only [List.map_cons, List.map_nil, Text.joined] at hfuel ⊢
      obtain ⟨fuel, rfl⟩ : ∃ n, fuel = n + 1 := ⟨fuel - 1, by omega⟩
      rw [readElements, hv.read hfuel hlead hstop]
      simp only [skipGaps_gaps hclose (show isGap ']' = false by decide)]
    | cons w ws =>
      simp only [List.map_cons, joined_cons_cons, List.length_append, List.length_cons, List.append_assoc,
        List.cons_append] at hfuel ih ⊢
      obtain ⟨fuel, rfl⟩ : ∃ n, fuel = n + 1 := ⟨fuel - 1, by omega⟩
      rw [readElements, hv.read (by omega) hlead (stops_comma _)]
      simp only [skipGaps_plain (show isGap ',' = false by decide)]
      rw [ih (by simp) (fun x hx => hvs x (List.mem_cons_of_mem _ hx)) hgap (by omega), Option.map_some]

/-- **A member in writing.** -/
def memberText (mid : List Char) (text : Json → List Char) (m : String × Json) : List Char :=
  quote m.1 ++ ':' :: (mid ++ text m.2)

theorem readMembers_joined {depth : Nat} {text : Json → List Char} {gap mid close : List Char} (hgap : Gaps gap)
    (hmid : Gaps mid) (hclose : Gaps close) (rest : List Char) {ms : List (String × Json)} (hne : ms ≠ [])
    (hms : ∀ m ∈ ms, Spelled depth m.2 (text m.2)) {fuel : Nat} {lead : List Char} (hlead : Gaps lead)
    (hfuel : 2 * (Text.joined (',' :: gap) (ms.map (memberText mid text))).length ≤ fuel) :
    readMembers (fuel + 1) depth (lead ++
      (Text.joined (',' :: gap) (ms.map (memberText mid text)) ++ (close ++ '}' :: rest))) =
      some (ms, rest) := by
  have hstop : Stops (close ++ '}' :: rest) := stops_gaps hclose (stops_cons (by decide) rest)
  induction ms generalizing fuel lead with
  | nil => exact absurd rfl hne
  | cons m ms ih =>
    have hv : Spelled depth m.2 (text m.2) := hms m (List.mem_cons_self ..)
    cases ms with
    | nil =>
      simp only [List.map_cons, List.map_nil, Text.joined, List.length_append, List.length_cons, List.append_assoc,
        List.cons_append, memberText, quote_eq] at hfuel ⊢
      obtain ⟨fuel, rfl⟩ : ∃ n, fuel = n + 1 := ⟨fuel - 1, by omega⟩
      rw [readMembers, skipGaps_gaps hlead (by decide)]
      simp only [stringChars_quote, skipGaps_plain (show isGap ':' = false by decide),
        hv.read (show 2 * (text m.2).length ≤ fuel + 1 by omega) hmid hstop,
        skipGaps_gaps hclose (show isGap '}' = false by decide), String.ofList_toList]
    | cons n ns =>
      simp only [List.map_cons, joined_cons_cons, List.length_append, List.length_cons, List.append_assoc,
        List.cons_append, memberText, quote_eq] at hfuel ih ⊢
      obtain ⟨fuel, rfl⟩ : ∃ n, fuel = n + 1 := ⟨fuel - 1, by omega⟩
      rw [readMembers, skipGaps_gaps hlead (by decide)]
      simp only [stringChars_quote, skipGaps_plain (show isGap ':' = false by decide),
        hv.read (show 2 * (text m.2).length ≤ fuel + 1 by omega) hmid (stops_comma _),
        skipGaps_plain (show isGap ',' = false by decide), String.ofList_toList]
      rw [ih (by simp) (fun x hx => hms x (List.mem_cons_of_mem _ hx)) hgap (by omega), Option.map_some]

/-- **An array is spelled by its elements**, with commas between them and blanks around them. -/
theorem spelled_array {depth : Nat} {text : Json → List Char} {gap close : List Char} (hgap : Gaps gap)
    (hclose : Gaps close) {vs : List Json} (hne : vs ≠ []) (hvs : ∀ v ∈ vs, Spelled depth v (text v)) :
    Spelled (depth + 1) (.array vs) ('[' :: (gap ++ (Text.joined (',' :: gap) (vs.map text) ++ (close ++ [']'])))) where
  head := ⟨'[', _, rfl, by decide, by decide⟩
  read {fuel lead rest} hfuel hlead _ := by
    obtain ⟨v, ws, rfl⟩ := List.exists_cons_of_ne_nil hne
    obtain ⟨c, t, htext, hc, hbracket⟩ := (hvs v (List.mem_cons_self ..)).head
    obtain ⟨u, hu⟩ := joined_head gap c t (ws.map text)
    rw [← htext, ← List.map_cons] at hu
    simp only [List.length_cons, List.length_append] at hfuel
    obtain ⟨fuel, rfl⟩ : ∃ n, fuel = n + 1 := ⟨fuel - 1, by omega⟩
    have hread := readElements_joined hgap hclose rest hne hvs gaps_nil
      (show 2 * (Text.joined (',' :: gap) ((v :: ws).map text)).length ≤ fuel by omega)
    simp only [hu, List.nil_append, List.cons_append, List.append_assoc] at hread ⊢
    rw [readValue, skipGaps_gaps hlead (by decide)]
    simp only [skipGaps_gaps hgap hc]
    split
    · rename_i heq
      exact absurd (List.cons.inj heq).1 hbracket
    · rw [hread, Option.map_some]

theorem spelled_noElements {depth : Nat} : Spelled (depth + 1) (.array []) ['[', ']'] where
  head := ⟨'[', [']'], rfl, by decide, by decide⟩
  read _ hlead _ := by
    rw [List.cons_append, readValue, skipGaps_gaps hlead (by decide)]
    simp only [List.cons_append, skipGaps_plain (show isGap ']' = false by decide), List.nil_append]

/-- **An object is spelled by its members**: a quoted name, a colon and what the value spells. -/
theorem spelled_object {depth : Nat} {text : Json → List Char} {gap mid close : List Char} (hgap : Gaps gap)
    (hmid : Gaps mid) (hclose : Gaps close) {ms : List (String × Json)} (hne : ms ≠ [])
    (hms : ∀ m ∈ ms, Spelled depth m.2 (text m.2)) :
    Spelled (depth + 1) (.object ms) ('\x7b' :: (gap ++
      (Text.joined (',' :: gap) (ms.map (memberText mid text)) ++ (close ++ ['\x7d'])))) where
  head := ⟨'\x7b', _, rfl, by decide, by decide⟩
  read {fuel lead rest} hfuel hlead _ := by
    obtain ⟨m, ns, rfl⟩ := List.exists_cons_of_ne_nil hne
    obtain ⟨u, hu⟩ := joined_head gap '"' (m.1.toList.flatMap quoteChar ++ '"' :: ':' :: (mid ++ text m.2))
      (ns.map (memberText mid text))
    rw [← quote_eq] at hu
    change Text.joined (',' :: gap) ((m :: ns).map (memberText mid text)) = '"' :: u at hu
    simp only [List.length_cons, List.length_append] at hfuel
    obtain ⟨fuel, rfl⟩ : ∃ n, fuel = n + 1 := ⟨fuel - 1, by omega⟩
    have hread := readMembers_joined hgap hmid hclose rest hne hms gaps_nil
      (show 2 * (Text.joined (',' :: gap) ((m :: ns).map (memberText mid text))).length ≤ fuel by omega)
    simp only [hu, List.nil_append, List.cons_append, List.append_assoc] at hread ⊢
    rw [readValue, skipGaps_gaps hlead (by decide)]
    simp only [skipGaps_gaps hgap (show isGap '"' = false by decide)]
    split
    · rename_i heq
      exact absurd (List.cons.inj heq).1 (by decide)
    · rw [hread, Option.map_some]

theorem read_of_spelled {v : Json} {cs : List Char} (h : Spelled depthLimit v cs) : read cs = some v := by
  have hread : readValue (2 * cs.length + 2) depthLimit cs = some (v, []) := by
    have h := h.read (show 2 * cs.length ≤ 2 * cs.length + 1 + 1 by omega) gaps_nil stops_nil
    rwa [List.append_nil, List.nil_append] at h
  rw [read, hread]
  rfl

/-! ## What is printed without blanks -/

theorem compactElements_eq_map (vs : List Json) : compactElements vs = vs.map compactChars := by
  induction vs with
  | nil => rfl
  | cons v vs ih => rw [compactElements, ih, List.map_cons]

theorem compactMembers_eq_map (ms : List (String × Json)) :
    compactMembers ms = ms.map (memberText [] compactChars) := by
  induction ms with
  | nil => rfl
  | cons m ms ih => rw [compactMembers, ih, List.map_cons, memberText, List.nil_append]

theorem spelled_compact_array {depth : Nat} {vs : List Json} (hvs : ∀ v ∈ vs, Spelled depth v (compactChars v)) :
    Spelled (depth + 1) (.array vs) (compactChars (.array vs)) := by
  by_cases hne : vs = []
  · subst hne
    exact spelled_noElements
  · have h := spelled_array gaps_nil gaps_nil hne hvs
    rw [compactChars, compactElements_eq_map]
    exact h

theorem spelled_compact_object {depth : Nat} {ms : List (String × Json)} (hne : ms ≠ [])
    (hms : ∀ m ∈ ms, Spelled depth m.2 (compactChars m.2)) :
    Spelled (depth + 1) (.object ms) (compactChars (.object ms)) := by
  have h := spelled_object gaps_nil gaps_nil gaps_nil hne hms
  rw [compactChars, compactMembers_eq_map]
  exact h

end Json
end Localizer
